import Ebb.Storage.Adjacency
import Ebb.Sync.QueryPlan

namespace Ebb.Sync

/-! Executing a plan over the rows of a replica. -/

open Storage (Entity LiveReplica)

structure PlanExecutor where
  scan : String → List (Entity JsonValue)
  get : String → Option (Entity JsonValue)
  /-- The live edges to a target, by accessor, type and target. -/
  relationships : String → String → String → List String
  memberships : String → List String

def liveSourceIds (rows : Option (OrderedMap String String)) : List String :=
  ((rows.map fun rows => (rows.entries.map Prod.snd).eraseDups).getD []).mergeSort
    fun left right => codeUnitsGe right left

def createReplicaExecutor (replica : LiveReplica JsonValue) : PlanExecutor where
  scan := replica.iterate
  get := replica.viewOf
  relationships := fun as type targetId =>
    liveSourceIds (replica.reverseIndex.get? (Storage.reverseIndexKey as type targetId))
  memberships := fun groupId =>
    liveSourceIds (replica.reverseIndex.get? (Storage.membershipIndexKey groupId))

/-! ## Predicates -/

/-- What `entity.data.fields[field]` gives on a plain object. An inherited object is no map,
and its `value` is undefined. -/
inductive FieldEntry where
  | undefined
  | inherited
  | field (value : FieldValue JsonValue)

def fieldEntry (entity : Entity JsonValue) (field : String) : FieldEntry :=
  match entity.fields.lookup field with
  | some value => .field value
  | none => if field ∈ objectPrototype then .inherited else .undefined

def matchesFieldValue (field : FieldEntry) (expected : JsonValue) : Bool :=
  match field with
  | .undefined => expected == .null
  | .inherited => false
  | .field (.map _) => false
  | .field (.leaf leaf) =>
      if expected = .null then leaf.value == .null else leaf.value.strictEqual expected

def indexHits (anyOf : Option (List String)) (lookup : String → List String) : List String :=
  ((anyOf.getD []).flatMap lookup).eraseDups

section Executor

variable (executor : PlanExecutor)

def predicateHits : PlanPredicate → List String
  | .adjacency as type anyOf => indexHits anyOf (executor.relationships as type)
  | .membership anyOf => indexHits anyOf executor.memberships
  | .filter _ _ => []

def intersectHits (predicates : List PlanPredicate) : List String :=
  match predicates.map (predicateHits executor) with
  | [] => []
  | head :: rest => rest.foldl (fun ids next => ids.filter fun id => id ∈ next) head

def isLive (row : Entity JsonValue) : Bool := row.deletedHlc.isNone

def rowsForIds (ids : List String) (type : String) : List (Entity JsonValue) :=
  ids.filterMap fun id =>
    (executor.get id).filter fun row => decide (row.type = type) && isLive row

def passes (predicate : PlanPredicate) (row : Entity JsonValue) : Bool :=
  match predicate with
  | .filter field value => matchesFieldValue (fieldEntry row field) value
  | _ => true

def selectGroup (predicates : List PlanPredicate) (sourceType : String)
    (scanned : List (Entity JsonValue)) : List (Entity JsonValue) :=
  let indexed := predicates.filter PlanPredicate.isIndexed
  let seed :=
    if indexed.isEmpty then scanned else rowsForIds executor (intersectHits executor indexed) sourceType
  (predicates.filter fun predicate => !predicate.isIndexed).foldl
    (fun rows predicate => rows.filter (passes predicate)) seed

/-! ## Order -/

/-- The built-ins an order is taken by: `localeCompare`, and `String(value)`. -/
structure Collation where
  localeCompare : String → String → Int
  display : ClientValue → String

/-- How an ordered field reads for a row whose leaves hold values of a type. -/
abbrev FieldResolver (V : Type) := Entity V → String → Option ClientValue

/-- `entity.data?.fields?.[field]?.value`. -/
def fieldValue {V : Type} (client : V → ClientValue) : FieldResolver V := fun entity field =>
  match entity.fields.lookup field with
  | some (.leaf leaf) => some (client leaf.value)
  | _ => none

def compareFieldValues (collation : Collation) (left right : Option ClientValue)
    (direction : Direction) : ClientNumber :=
  match left, right with
  | none, none => .finite 0
  | none, some _ => .finite 1
  | some _, none => .finite (-1)
  | some left, some right =>
      if left.strictEqual right then .finite 0
      else match left.number?, right.number?, direction with
        | some one, some two, .asc => one.minus two
        | some one, some two, .desc => two.minus one
        | _, _, .asc =>
            .finite (collation.localeCompare (collation.display left) (collation.display right))
        | _, _, .desc =>
            .finite (collation.localeCompare (collation.display right) (collation.display left))

/-- A difference that is no number is not zero: the ids do not decide there. -/
def compareRows {V : Type} (collation : Collation) (resolveField : FieldResolver V)
    (field : Option String) (direction : Direction) (left right : Entity V) : ClientNumber :=
  match field, direction with
  | none, .asc => .finite (collation.localeCompare left.id right.id)
  | none, .desc => .finite (collation.localeCompare right.id left.id)
  | some field, direction =>
      let primary := compareFieldValues collation (resolveField left field)
        (resolveField right field) direction
      if primary = .finite 0 then .finite (collation.localeCompare left.id right.id) else primary

/-- The order a sort by `compareRows` sees. -/
def rowOrder {V : Type} (collation : Collation) (resolveField : FieldResolver V)
    (field : Option String) (direction : Direction) (left right : Entity V) : Rat :=
  (compareRows collation resolveField field direction left right).taken

/-! ## Execution -/

structure Execution where
  sourceType : String
  selecting : Bool
  selected : OrderedMap String (Entity JsonValue)
  narrowed : Option (List (Entity JsonValue))

/-- The live rows of the source type. The source reads them once; a plan has one scan. -/
def scanned (state : Execution) : List (Entity JsonValue) :=
  (executor.scan state.sourceType).filter isLive

def current (state : Execution) : List (Entity JsonValue) :=
  match state.narrowed with
  | some rows => rows
  | none =>
      if state.selecting then state.selected.entries.map Prod.snd else scanned executor state

def addSelected (selected : OrderedMap String (Entity JsonValue)) (row : Entity JsonValue) :
    OrderedMap String (Entity JsonValue) :=
  if selected.contains row.id then selected else selected.set row.id row

def executeOp (collation : Collation) (resolveField : FieldResolver JsonValue) (state : Execution) :
    PlanOp → Execution
  | .scan type => { sourceType := type, selecting := false, selected := .empty, narrowed := none }
  | .select predicates =>
      { state with
        selecting := true
        narrowed := none
        selected := (selectGroup executor predicates state.sourceType
          (scanned executor state)).foldl addSelected state.selected }
  | .order field direction =>
      { state with
        narrowed := some ((current executor state).mergeSort fun left right =>
          decide (rowOrder collation resolveField field direction left right ≤ 0)) }
  | .limit limit => { state with narrowed := some ((current executor state).take limit) }

def executePlan (collation : Collation) (resolveField : FieldResolver JsonValue) (plan : QueryPlan) :
    List (Entity JsonValue) :=
  current executor (plan.ops.foldl (executeOp executor collation resolveField)
    { sourceType := "", selecting := false, selected := .empty, narrowed := none })

end Executor

/-! ## Selecting by filters -/

def filterQuery (type : String) (filter : Option Filter) : Query :=
  { emptyQuery type with groups := filterToGroups filter }

structure PlanExecutor.Scans (executor : PlanExecutor) (type : String) : Prop where
  once : ((executor.scan type).map Entity.id).Nodup
  typed : ∀ row ∈ executor.scan type, row.type = type

/-- Every field of the group holds the value asked for. -/
def matchesGroup (row : Entity JsonValue) (group : FilterGroup) : Bool :=
  group.all fun entry => matchesFieldValue (fieldEntry row entry.1) entry.2

/-- The predicates of a group of a filter, as the planner hands them on. -/
def fieldPredicates (group : FilterGroup) : List PlanPredicate :=
  group.map fun entry => .filter entry.1 entry.2

variable (group : FilterGroup)

theorem filter_isIndexed_fieldPredicates :
    (fieldPredicates group).filter PlanPredicate.isIndexed = [] := by
  rw [fieldPredicates, List.filter_map, List.map_eq_nil_iff, List.filter_eq_nil_iff]
  exact fun _ _ => Bool.false_ne_true

theorem filter_notIndexed_fieldPredicates :
    ((fieldPredicates group).filter fun predicate => !predicate.isIndexed) =
      fieldPredicates group := by
  rw [List.filter_eq_self]
  intro predicate member
  rcases List.mem_map.mp member with ⟨entry, _, rfl⟩
  rfl

theorem orderPredicates_fieldPredicates :
    orderPredicates (fieldPredicates group) = fieldPredicates group := by
  rw [orderPredicates, filter_isIndexed_fieldPredicates, filter_notIndexed_fieldPredicates,
    List.nil_append]

theorem foldl_filter_passes (rows : List (Entity JsonValue)) :
    (fieldPredicates group).foldl (fun rows predicate => rows.filter (passes predicate)) rows =
      rows.filter fun row => matchesGroup row group := by
  induction group generalizing rows with
  | nil => simp [fieldPredicates, matchesGroup]
  | cons entry rest induction =>
      rw [fieldPredicates, List.map_cons, List.foldl_cons, ← fieldPredicates, induction,
        List.filter_filter]
      congr 1
      funext row
      rw [matchesGroup, matchesGroup, List.all_cons, Bool.and_comm]
      rfl

theorem selectGroup_fieldPredicates (executor : PlanExecutor) (group : FilterGroup) (type : String)
    (rows : List (Entity JsonValue)) :
    selectGroup executor (fieldPredicates group) type rows =
      rows.filter fun row => matchesGroup row group := by
  rw [selectGroup, filter_isIndexed_fieldPredicates, filter_notIndexed_fieldPredicates]
  exact foldl_filter_passes group rows

/-! ### The rows selected so far -/

/-- The rows of a list of distinct ids that satisfy a condition, under their ids. -/
def Collects (rows : List (Entity JsonValue)) (selected : OrderedMap String (Entity JsonValue))
    (chosen : Entity JsonValue → Prop) : Prop :=
  ∀ id row, selected.get? id = some row ↔ row ∈ rows ∧ row.id = id ∧ chosen row

section Collects

variable {rows : List (Entity JsonValue)} {selected : OrderedMap String (Entity JsonValue)}
  {chosen : Entity JsonValue → Prop}

theorem Collects.addSelected (distinct : (rows.map Entity.id).Nodup)
    (collects : Collects rows selected chosen) {added : Entity JsonValue} (member : added ∈ rows) :
    Collects rows (addSelected selected added) fun row => chosen row ∨ row = added := by
  have same : ∀ row ∈ rows, row.id = added.id → row = added := fun row rowMember equal =>
    List.inj_on_of_nodup_map distinct rowMember member equal
  intro id row
  rw [Sync.addSelected]
  split
  · next held =>
      rcases Option.isSome_iff_exists.mp held with ⟨earlier, found⟩
      rcases (collects added.id earlier).mp found with ⟨earlierMember, equal, was⟩
      rw [collects]
      constructor
      · rintro ⟨rowMember, rfl, chosen⟩
        exact ⟨rowMember, rfl, .inl chosen⟩
      · rintro ⟨rowMember, rfl, chosen | rfl⟩
        · exact ⟨rowMember, rfl, chosen⟩
        · exact ⟨rowMember, rfl, same earlier earlierMember equal ▸ was⟩
  · next fresh =>
      rw [OrderedMap.get?_set]
      split
      · next here =>
          subst here
          constructor
          · rintro ⟨⟩
            exact ⟨member, rfl, .inr rfl⟩
          · rintro ⟨rowMember, equal, _⟩
            rw [same row rowMember equal]
      · next elsewhere =>
          rw [collects]
          constructor
          · rintro ⟨rowMember, equal, chosen⟩
            exact ⟨rowMember, equal, .inl chosen⟩
          · rintro ⟨rowMember, equal, chosen | rfl⟩
            · exact ⟨rowMember, equal, chosen⟩
            · exact absurd equal.symm elsewhere

theorem Collects.foldl_addSelected (distinct : (rows.map Entity.id).Nodup)
    (collects : Collects rows selected chosen) {added : List (Entity JsonValue)}
    (members : ∀ row ∈ added, row ∈ rows) :
    Collects rows (added.foldl Sync.addSelected selected) fun row => chosen row ∨ row ∈ added := by
  induction added generalizing selected chosen with
  | nil => simpa using collects
  | cons head rest induction =>
      have one := collects.addSelected distinct (members head List.mem_cons_self)
      have later := induction one fun row member => members row (List.mem_cons_of_mem _ member)
      intro id row
      rw [List.foldl_cons, later id row]
      simp only [List.mem_cons, or_assoc]

end Collects

/-! ### The plan of a filter -/

/-- The values of the filter's fields in one of its groups; a filter without groups asks for
nothing. -/
def matchesFilter (row : Entity JsonValue) (filter : Option Filter) : Prop :=
  filter.getD [] = [] ∨ ∃ group ∈ filter.getD [], matchesGroup row group = true

/-- The groups so far have selected the live rows that are chosen. -/
structure Selecting (executor : PlanExecutor) (type : String) (state : Execution)
    (chosen : Entity JsonValue → Prop) : Prop where
  source : state.sourceType = type
  collects : Collects ((executor.scan type).filter isLive) state.selected chosen
  selecting : state.selecting = true
  narrowed : state.narrowed = none

section Planned

variable {executor : PlanExecutor} {type : String} (scans : executor.Scans type)
  (collation : Collation) (resolveField : FieldResolver JsonValue)

include scans

variable {state : Execution}

theorem selecting_executeOp (group : FilterGroup) {chosen : Entity JsonValue → Prop}
    (source : state.sourceType = type)
    (collects : Collects ((executor.scan type).filter isLive) state.selected chosen) :
    Selecting executor type
      (executeOp executor collation resolveField state (.select (fieldPredicates group)))
      fun row => chosen row ∨ matchesGroup row group = true where
  source := source
  selecting := rfl
  narrowed := rfl
  collects := by
    have distinct : (((executor.scan type).filter isLive).map Entity.id).Nodup :=
      scans.once.sublist (List.filter_sublist.map Entity.id)
    have members : ∀ row ∈ ((executor.scan type).filter isLive).filter
        (fun row => matchesGroup row group), row ∈ (executor.scan type).filter isLive :=
      fun row member => (List.mem_filter.mp member).1
    have added := collects.foldl_addSelected distinct members
    intro id row
    rw [executeOp, selectGroup_fieldPredicates, scanned, source, added id row]
    constructor
    · rintro ⟨member, named, chosen | matched⟩
      · exact ⟨member, named, .inl chosen⟩
      · exact ⟨member, named, .inr (List.mem_filter.mp matched).2⟩
    · rintro ⟨member, named, chosen | matched⟩
      · exact ⟨member, named, .inl chosen⟩
      · exact ⟨member, named, .inr (List.mem_filter.mpr ⟨member, matched⟩)⟩

theorem Selecting.foldl {groups : List FilterGroup} {chosen : Entity JsonValue → Prop}
    (selecting : Selecting executor type state chosen) :
    Selecting executor type
      ((groups.map fun group => PlanOp.select (fieldPredicates group)).foldl
        (executeOp executor collation resolveField) state)
      fun row => chosen row ∨ ∃ group ∈ groups, matchesGroup row group = true := by
  induction groups generalizing state chosen with
  | nil => simpa using selecting
  | cons group rest induction =>
      have one := selecting_executeOp scans collation resolveField group selecting.source
        selecting.collects
      simpa only [List.map_cons, List.foldl_cons, List.mem_cons, exists_eq_or_imp,
        or_assoc] using induction one

omit scans in
theorem Selecting.mem_current {chosen : Entity JsonValue → Prop}
    (selecting : Selecting executor type state chosen) (row : Entity JsonValue) :
    row ∈ current executor state ↔
      row ∈ executor.scan type ∧ isLive row = true ∧ chosen row := by
  rw [current, selecting.narrowed, selecting.selecting]
  dsimp only
  rw [if_pos rfl, List.mem_map, ← and_assoc, ← List.mem_filter]
  constructor
  · rintro ⟨⟨id, held⟩, member, rfl⟩
    have found := (state.selected.get?_eq_some_iff id held).mpr member
    rcases (selecting.collects id held).mp found with ⟨live, _, chosen⟩
    exact ⟨live, chosen⟩
  · rintro ⟨live, chosen⟩
    exact ⟨(row.id, row), (state.selected.get?_eq_some_iff _ _).mp
      ((selecting.collects row.id row).mpr ⟨live, rfl, chosen⟩), rfl⟩

omit scans in
theorem planQuery_filterQuery (type : String) {filter : Option Filter}
    (filled : ∀ group ∈ filter.getD [], group ≠ []) :
    (planQuery (filterQuery type filter)).ops =
      .scan type :: ((filter.getD []).map fun group => PlanOp.select (fieldPredicates group)) ++
        [.order none .asc] := by
  have someEmpty : (filter.getD []).any List.isEmpty = false := by
    rw [List.any_eq_false]
    intro group member
    rw [List.isEmpty_iff]
    exact filled group member
  have groups : filterToGroups filter = (filter.getD []).map fun group =>
      group.map fun entry => Predicate.field entry.1 entry.2 := by
    rw [filterToGroups, someEmpty]
    rfl
  have kept : ((filterToGroups filter).filter fun group => !group.isEmpty) =
      filterToGroups filter := by
    rw [List.filter_eq_self, groups]
    intro predicates member
    rcases List.mem_map.mp member with ⟨group, within, rfl⟩
    simpa using filled group within
  have selects : ((filterToGroups filter).map fun group =>
      PlanOp.select (orderPredicates (group.map toPlanPredicate))) =
      (filter.getD []).map fun group => PlanOp.select (fieldPredicates group) := by
    rw [groups, List.map_map]
    apply List.map_congr_left
    intro group _
    rw [Function.comp_apply, ← orderPredicates_fieldPredicates group, List.map_map]
    rfl
  rw [planQuery, filterQuery]
  dsimp only [emptyQuery]
  rw [kept, selects, List.append_nil]
  rfl

omit scans in
theorem planQuery_unfiltered (type : String) {filter : Option Filter}
    (empty : filterToGroups filter = []) :
    (planQuery (filterQuery type filter)).ops = [.scan type, .order none .asc] := by
  rw [planQuery, filterQuery, empty]
  rfl

omit scans in
theorem mem_executeOp_order (state : Execution) (row : Entity JsonValue) :
    row ∈ current executor (executeOp executor collation resolveField state (.order none .asc)) ↔
      row ∈ current executor state := by
  rw [executeOp]
  exact List.mem_mergeSort

theorem mem_executePlan_filterQuery (filter : Option Filter) (row : Entity JsonValue) :
    row ∈ executePlan executor collation resolveField (planQuery (filterQuery type filter)) ↔
      row ∈ executor.scan type ∧ isLive row = true ∧ matchesFilter row filter := by
  have scanAll : row ∈ current executor (executeOp executor collation resolveField
      { sourceType := "", selecting := false, selected := .empty, narrowed := none }
      (.scan type)) ↔ row ∈ executor.scan type ∧ isLive row = true := by
    exact List.mem_filter
  rw [executePlan]
  by_cases filled : ∀ group ∈ filter.getD [], group ≠ []
  · rw [planQuery_filterQuery type filled, List.foldl_append, List.foldl_cons, List.foldl_cons,
      List.foldl_nil, mem_executeOp_order]
    rw [matchesFilter]
    cases groups : filter.getD [] with
    | nil => simpa using scanAll
    | cons group rest =>
        rw [List.map_cons, List.foldl_cons]
        have nothing : Collects ((executor.scan type).filter isLive)
            (executeOp executor collation resolveField
              { sourceType := "", selecting := false, selected := .empty, narrowed := none }
              (.scan type)).selected fun _ => False := by
          intro id row
          simp [executeOp]
        have first := selecting_executeOp scans collation resolveField group rfl nothing
        rw [(first.foldl scans collation resolveField).mem_current row]
        simp [List.mem_cons]
  · simp only [not_forall, not_not] at filled
    rcases filled with ⟨_, member, rfl⟩
    have empty : filterToGroups filter = [] := by
      have someEmpty : (filter.getD []).any List.isEmpty = true :=
        List.any_eq_true.mpr ⟨[], member, rfl⟩
      rw [filterToGroups, if_pos someEmpty]
    rw [planQuery_unfiltered type empty, List.foldl_cons, List.foldl_cons, List.foldl_nil,
      mem_executeOp_order, scanAll, ← and_assoc]
    exact (and_iff_left (.inr ⟨[], member, rfl⟩)).symm

end Planned

end Ebb.Sync
