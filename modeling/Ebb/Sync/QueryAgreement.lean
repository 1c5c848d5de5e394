import Ebb.Server.QueryFilter
import Ebb.Sync.QueryExecute

namespace Ebb.Sync

/-! The client's executor against the server's SQL, for one filter over one row. -/

open Storage (Entity)
open Server (SqlValue SqlCondition)
open Server.EntityStore (EntityRow)
open Server.SQLite (sqlValue filterClause groupClauses queryEntitiesWhere)

/-! ## One predicate -/

/-- The pairs of a stored and an asked value that the two programs read differently. To
SQLite a boolean is a number and an array or an object is its text; the client rounds an
integer beyond the doubles. -/
def MisreadValue : JsonValue → JsonValue → Prop
  | .bool stored, .number asked => asked.exact = if stored then 1 else 0
  | .number stored, .bool asked => stored.exact = if asked then 1 else 0
  | .number stored, .number asked => ¬ (stored.double = asked.double ↔ stored.exact = asked.exact)
  | .composite json, .text asked => json = asked
  | _, _ => False

/-- A plain object also has the properties it inherits, where the server finds nothing. -/
def Misread : FieldEntry → JsonValue → Prop
  | .inherited, asked => asked = .null
  | .field (.leaf leaf), asked => MisreadValue leaf.value asked
  | _, _ => False

theorem sqlValue_bool (flag : Bool) : sqlValue (.bool flag) = .number (if flag then 1 else 0) := by
  cases flag <;> rfl

theorem values_agree_iff {stored asked : JsonValue}
    (scalar : Server.QueryFilter.isScalar asked = true)
    (present : asked ≠ .null) :
    (stored.strictEqual asked = true ↔
      (sqlValue stored).equal (sqlValue asked) = some true) ↔ ¬ MisreadValue stored asked := by
  cases asked with
  | null => exact absurd rfl present
  | composite json => cases scalar
  | bool asked =>
      rw [sqlValue_bool]
      cases stored with
      | bool stored =>
          rw [sqlValue_bool]
          cases stored <;> cases asked <;>
            simp [JsonValue.strictEqual, SqlValue.equal, MisreadValue]
      | number stored => simp [JsonValue.strictEqual, sqlValue, SqlValue.equal, MisreadValue]
      | _ => simp [JsonValue.strictEqual, sqlValue, SqlValue.equal, MisreadValue]
  | number asked =>
      cases stored with
      | bool stored =>
          rw [sqlValue_bool]
          simp only [JsonValue.strictEqual, sqlValue, SqlValue.equal, MisreadValue, beq_iff_eq,
            Option.some.injEq, Bool.false_eq_true, false_iff]
          exact not_congr eq_comm
      | _ => simp [JsonValue.strictEqual, sqlValue, SqlValue.equal, MisreadValue]
  | text asked =>
      cases stored with
      | bool stored =>
          rw [sqlValue_bool]
          simp [JsonValue.strictEqual, sqlValue, SqlValue.equal, MisreadValue]
      | _ => simp [JsonValue.strictEqual, sqlValue, SqlValue.equal, MisreadValue]

theorem sqlValue_eq_null (value : JsonValue) : sqlValue value = .null ↔ value = .null := by
  rcases value with _ | flag | _ | _ | _
  · exact iff_of_true rfl rfl
  · cases flag <;> exact iff_of_false nofun nofun
  · exact iff_of_false nofun nofun
  · exact iff_of_false nofun nofun
  · exact iff_of_false nofun nofun

theorem filterClause_null (data : Fields JsonValue) (field : String) :
    filterClause data (field, .null) = some true ↔
      Server.SQLite.fieldPath data field = .null ∧ Server.SQLite.noMap data field = true := by
  rw [filterClause, Server.sqlAnd_eq_true, Option.some.injEq, Option.some.injEq, beq_iff_eq]

variable {entry : String × JsonValue}

theorem predicates_agree_iff (row : Entity JsonValue)
    (scalar : Server.QueryFilter.isScalar entry.2 = true) :
    (matchesFieldValue (fieldEntry row entry.1) entry.2 = true ↔
      filterClause row.fields entry = some true) ↔ ¬ Misread (fieldEntry row entry.1) entry.2 := by
  rcases entry with ⟨field, asked⟩
  by_cases null : asked = .null
  · subst null
    rw [filterClause_null, fieldEntry, Server.SQLite.fieldPath, Server.SQLite.noMap]
    rcases row.fields.lookup field with _ | leaf | entries
    · dsimp only
      split
      · simp [matchesFieldValue, Misread]
      · simp [matchesFieldValue, Misread]
    · simp [matchesFieldValue, Misread, MisreadValue, sqlValue_eq_null]
    · simp [matchesFieldValue, Misread]
  · have clause : filterClause row.fields (field, asked) =
        (Server.SQLite.fieldPath row.fields field).equal (sqlValue asked) := by
      cases asked with
      | null => exact absurd rfl null
      | _ => rfl
    rw [clause, fieldEntry, Server.SQLite.fieldPath]
    rcases row.fields.lookup field with _ | leaf | entries
    · dsimp only
      split
      · simp [matchesFieldValue, Misread, SqlValue.equal, null]
      · simp [matchesFieldValue, Misread, SqlValue.equal, null]
    · rw [matchesFieldValue, if_neg null]
      exact values_agree_iff scalar null
    · simp [matchesFieldValue, Misread, SqlValue.equal]

/-! ## Whole filters -/

/-- The row of the server's table with the same content. -/
def storedRow (row : Entity JsonValue) (deletedBy : Option String) : EntityRow JsonValue where
  id := row.id
  type := row.type
  data := row.fields
  createdHlc := row.createdHlc
  updatedHlc := row.updatedHlc
  deletedHlc := row.deletedHlc
  deletedBy := deletedBy
  lastGsn := row.lastGsn

/-- The client and the server agree whether a filter selects a row. -/
def SelectsAlike (executor : PlanExecutor) (collation : Collation)
    (resolveField : FieldResolver JsonValue)
    (type : String) (row : Entity JsonValue) (deletedBy : Option String) (filter : Option Filter) :
    Prop :=
  row ∈ executePlan executor collation resolveField (planQuery (filterQuery type filter)) ↔
    queryEntitiesWhere type filter (storedRow row deletedBy) = .ok true

def Valid (filter : Option Filter) : Prop :=
  ∃ groups, Server.QueryFilter.normalize filter = .ok groups

/-- A valid filter whose predicates are among the given ones. -/
def Uses (predicates : List (String × JsonValue)) (filter : Option Filter) : Prop :=
  Valid filter ∧ ∀ group ∈ filter.getD [], ∀ entry ∈ group, entry ∈ predicates

theorem Valid.groups {filter : Option Filter} (valid : Valid filter) :
    (filter.getD []).all Server.QueryFilter.validGroup = true := by
  rcases valid with ⟨groups, accepted⟩
  rcases filter with _ | _ | ⟨group, rest⟩
  · rfl
  · rfl
  · by_cases all : (group :: rest).all Server.QueryFilter.validGroup = true
    · exact all
    · have refused : Server.QueryFilter.normalize (some (group :: rest)) = .error .invalidFilter :=
        if_pos (by rw [Bool.not_eq_true', ← Bool.not_eq_true]; exact all)
      rw [refused] at accepted
      cases accepted

theorem Valid.scalar {filter : Option Filter} (valid : Valid filter) {group : FilterGroup}
    (member : group ∈ filter.getD []) (within : entry ∈ group) :
    Server.QueryFilter.isScalar entry.2 = true := by
  have accepted := List.all_eq_true.mp valid.groups group member
  rw [Server.QueryFilter.validGroup, Bool.and_eq_true] at accepted
  have whole := List.all_eq_true.mp accepted.2 entry within
  rw [Server.QueryFilter.validEntry, Bool.and_eq_true] at whole
  exact whole.2

theorem valid_single (valid : Server.QueryFilter.validEntry entry = true) :
    Valid (some [[entry]]) := by
  refine ⟨some [[entry]], ?_⟩
  simp [Server.QueryFilter.normalize, Server.QueryFilter.validGroup, Server.QueryFilter.maxKeys, valid]

section Filters

variable {executor : PlanExecutor} {type : String} (collation : Collation)
  (resolveField : FieldResolver JsonValue) {row : Entity JsonValue}

theorem selectsAlike_iff (scans : executor.Scans type) (scanned : row ∈ executor.scan type)
    (live : row.deletedHlc = none) (deletedBy : Option String) {filter : Option Filter}
    (valid : Valid filter) :
    SelectsAlike executor collation resolveField type row deletedBy filter ↔
      (matchesFilter row filter ↔ filter.getD [] = [] ∨
        ∃ group ∈ filter.getD [], groupClauses row.fields group = some true) := by
  have alive : isLive row = true := Option.isNone_iff_eq_none.mpr live
  rw [SelectsAlike, mem_executePlan_filterQuery scans, Server.SQLite.queryEntitiesWhere_eq valid.groups]
  rw [and_iff_right scanned, and_iff_right alive]
  have typed : (storedRow row deletedBy).type = type := scans.typed row scanned
  have alsoLive : (storedRow row deletedBy).deletedHlc = none := live
  rw [and_iff_right typed, and_iff_right alsoLive]
  rfl

theorem selectsAlike_of_deleted (scans : executor.Scans type) (deleted : row.deletedHlc ≠ none)
    (deletedBy : Option String) {filter : Option Filter} (valid : Valid filter) :
    SelectsAlike executor collation resolveField type row deletedBy filter := by
  rw [SelectsAlike, mem_executePlan_filterQuery scans, Server.SQLite.queryEntitiesWhere_eq valid.groups]
  constructor
  · rintro ⟨_, live, _⟩
    exact absurd (Option.isNone_iff_eq_none.mp live) deleted
  · rintro ⟨_, live, _⟩
    exact absurd live deleted

/-- A row is selected alike by every filter over some predicates exactly when it is deleted
or none of them misreads it. -/
theorem selectsAlike_all_iff (scans : executor.Scans type) (scanned : row ∈ executor.scan type)
    (deletedBy : Option String) {predicates : List (String × JsonValue)}
    (valid : ∀ entry ∈ predicates, Server.QueryFilter.validEntry entry = true) :
    (∀ filter, Uses predicates filter →
      SelectsAlike executor collation resolveField type row deletedBy filter) ↔
      (row.deletedHlc = none → ∀ entry ∈ predicates, ¬ Misread (fieldEntry row entry.1) entry.2) := by
  constructor
  · intro alike live entry member
    have single := alike (some [[entry]]) ⟨valid_single (valid entry member), by
      intro group groupMember other within
      rw [List.mem_singleton.mp groupMember] at within
      exact List.mem_singleton.mp within ▸ member⟩
    rw [selectsAlike_iff collation resolveField scans scanned live deletedBy
      (valid_single (valid entry member))] at single
    have scalar := (valid_single (valid entry member)).scalar List.mem_cons_self List.mem_cons_self
    rw [← predicates_agree_iff row scalar]
    have asked : (some [[entry]]).getD [] = [[entry]] := rfl
    rw [matchesFilter, asked, or_iff_right (List.cons_ne_nil _ _),
      or_iff_right (List.cons_ne_nil _ _)] at single
    simpa only [List.mem_singleton, exists_eq_left, matchesGroup, List.all_cons, List.all_nil,
      Bool.and_true, Server.SQLite.groupClauses_eq_true, forall_eq] using single
  · rintro read filter ⟨accepted, uses⟩
    by_cases live : row.deletedHlc = none
    · rw [selectsAlike_iff collation resolveField scans scanned live deletedBy accepted, matchesFilter]
      have group : ∀ group ∈ filter.getD [],
          (matchesGroup row group = true ↔ groupClauses row.fields group = some true) := by
        intro group member
        rw [matchesGroup, List.all_eq_true, Server.SQLite.groupClauses_eq_true]
        refine forall₂_congr fun entry within => ?_
        exact (predicates_agree_iff row (accepted.scalar member within)).mpr
          (read live entry (uses group member entry within))
      refine or_congr Iff.rfl (exists_congr fun candidate => and_congr_right fun member => ?_)
      exact group candidate member
    · exact selectsAlike_of_deleted collation resolveField scans live deletedBy accepted

end Filters

/-! ### A flag asked for as a number -/

def doneTodo : Entity JsonValue where
  id := "todo_1"
  type := "todo"
  fields := [("done", .leaf { value := .bool true, updateId := "upd_1", hlc := some 10 })]
  createdHlc := 10
  updatedHlc := 10
  deletedHlc := none
  lastGsn := 1

def todoRows : PlanExecutor where
  scan := fun type => [doneTodo].filter fun row => row.type = type
  get := fun id => [doneTodo].find? fun row => row.id = id
  relationships := fun _ _ _ => []
  memberships := fun _ => []

theorem todoRows_scans : todoRows.Scans "todo" where
  once := by decide
  typed := by
    intro row member
    rw [List.mem_singleton.mp member]
    rfl

def byLength : Collation where
  localeCompare := fun left right => left.length - right.length
  display := fun _ => ""

/-- The server takes the stored flag for the number 1, the client does not. -/
theorem flag_selected_as_number :
    Valid (some [[("done", .number (.integer 1))]]) ∧
      ¬ SelectsAlike todoRows byLength (fieldValue .json) "todo" doneTodo none
        (some [[("done", .number (.integer 1))]]) := by
  have valid : Valid (some [[("done", .number (.integer 1))]]) := valid_single (by decide)
  refine ⟨valid, ?_⟩
  rw [selectsAlike_iff byLength (fieldValue .json) todoRows_scans List.mem_cons_self rfl none valid]
  intro alike
  have selected : groupClauses doneTodo.fields [("done", .number (.integer 1))] = some true := by
    decide +kernel
  rcases alike.mpr (.inr ⟨_, List.mem_cons_self, selected⟩) with none | ⟨group, member, matched⟩
  · cases none
  · rw [List.mem_singleton.mp member] at matched
    cases matched

/-- Asked for as a flag, or asked for a field it lacks, the row is selected alike. -/
theorem selectsAlike_flag :
    SelectsAlike todoRows byLength (fieldValue .json) "todo" doneTodo none
      (some [[("done", .bool true), ("title", .null)]]) := by
  have alike : ∀ filter, Uses [("done", .bool true), ("title", .null)] filter →
      SelectsAlike todoRows byLength (fieldValue .json) "todo" doneTodo none filter := by
    apply (selectsAlike_all_iff byLength (fieldValue .json) todoRows_scans List.mem_cons_self none
      ?_).mpr
    · intro _ entry member
      rcases List.mem_cons.mp member with rfl | later
      · exact not_false
      · rw [List.mem_singleton.mp later]
        exact not_false
    · decide
  apply alike
  have accepted : Server.QueryFilter.normalize
      (some [[("done", .bool true), ("title", .null)]]) =
        .ok (some [[("done", .bool true), ("title", .null)]]) := by decide
  refine ⟨⟨_, accepted⟩, ?_⟩
  intro group inFilter entry member
  rw [List.mem_singleton.mp inFilter] at member
  exact member

end Ebb.Sync
