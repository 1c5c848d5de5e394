import Ebb.Core.JsonValue
import Ebb.Server.EntityStore

namespace Ebb.Server

/-! The filter of `query_entities`: what it accepts, and the SQL condition it becomes. -/

/-! ## SQL values and conditions -/

inductive SqlValue where
  | null
  | number (value : Rat)
  | text (value : String)
deriving DecidableEq

/-- A condition is true, false or unknown. -/
abbrev SqlCondition := Option Bool

/-- `left = right`: numbers compare by value, and values of two storage classes differ. -/
def SqlValue.equal : SqlValue → SqlValue → SqlCondition
  | .null, _ => none
  | _, .null => none
  | .number left, .number right => some (left == right)
  | .text left, .text right => some (left == right)
  | _, _ => some false

def sqlAnd : SqlCondition → SqlCondition → SqlCondition
  | some true, right => right
  | some false, _ => some false
  | none, some false => some false
  | none, _ => none

def sqlOr : SqlCondition → SqlCondition → SqlCondition
  | some true, _ => some true
  | some false, right => right
  | none, some true => some true
  | none, _ => none

theorem sqlAnd_eq_true (left right : SqlCondition) :
    sqlAnd left right = some true ↔ left = some true ∧ right = some true := by
  rcases left with _ | _ | _ <;> rcases right with _ | _ | _ <;> simp [sqlAnd]

theorem sqlOr_eq_true (left right : SqlCondition) :
    sqlOr left right = some true ↔ left = some true ∨ right = some true := by
  rcases left with _ | _ | _ <;> rcases right with _ | _ | _ <;> simp [sqlOr]

def sqlAll (conditions : List SqlCondition) : SqlCondition := conditions.foldr sqlAnd (some true)

def sqlAny (conditions : List SqlCondition) : SqlCondition := conditions.foldr sqlOr (some false)

variable (conditions : List SqlCondition)

theorem sqlAll_eq_true :
    sqlAll conditions = some true ↔ ∀ condition ∈ conditions, condition = some true := by
  induction conditions with
  | nil => simp [sqlAll]
  | cons head rest induction =>
      rw [sqlAll, List.foldr_cons, ← sqlAll, sqlAnd_eq_true, induction, List.forall_mem_cons]

theorem sqlAny_eq_true : sqlAny conditions = some true ↔ some true ∈ conditions := by
  induction conditions with
  | nil => simp [sqlAny]
  | cons head rest induction =>
      rw [sqlAny, List.foldr_cons, ← sqlAny, sqlOr_eq_true, induction, List.mem_cons, eq_comm]

/-! ## Valid filters -/

namespace QueryFilter

def maxKeys : Nat := 64

def minInteger : Int := -0x8000000000000000

def maxInteger : Int := 0x7FFFFFFFFFFFFFFF

def isScalar : JsonValue → Bool
  | .null => true
  | .bool _ => true
  | .text _ => true
  | .number (.real _) => true
  | .number (.integer value) => decide (minInteger ≤ value) && decide (value ≤ maxInteger)
  | .composite _ => false

def isNameStart (char : Char) : Bool :=
  isLowerLetter char || ('A' ≤ char && char ≤ 'Z') || char == '_'

/-- The pattern `^[A-Za-z_][A-Za-z0-9_]*$`, whose end may stand before a last newline. -/
def isFieldName (field : String) : Bool :=
  let chars := field.toList
  let name := if chars.getLast? = some (Char.ofNat 10) then chars.dropLast else chars
  match name with
  | [] => false
  | head :: rest => isNameStart head && rest.all fun char => isNameStart char || char.isDigit

def validEntry (entry : String × JsonValue) : Bool := isFieldName entry.1 && isScalar entry.2

def validGroup (group : List (String × JsonValue)) : Bool :=
  decide (group.length ≤ maxKeys) && group.all validEntry

inductive FilterError where
  | invalidFilter
deriving DecidableEq

/-- A list that holds an empty group filters nothing. -/
def normalize : Option (List (List (String × JsonValue))) →
    Except FilterError (Option (List (List (String × JsonValue))))
  | none => .ok none
  | some [] => .ok none
  | some groups =>
      if !groups.all validGroup then .error .invalidFilter
      else if groups.any fun group => group.length == 0 then .ok none
      else .ok (some groups)

end QueryFilter

/-! ## The condition of a filter -/

namespace SQLite

open EntityStore (EntityRow)

/-- The SQL value of a JSON value: arrays and objects come as their text. -/
def sqlValue : JsonValue → SqlValue
  | .null => .null
  | .bool true => .number 1
  | .bool false => .number 0
  | .number value => .number value.exact
  | .text value => .text value
  | .composite json => .text json

/-- `json_extract(e.data, '$.fields.<field>.value')`: NULL for a missing path. -/
def fieldPath (data : Fields JsonValue) (field : String) : SqlValue :=
  match data.lookup field with
  | some (.leaf leaf) => sqlValue leaf.value
  | some (.map _) => .null
  | none => .null

/-- `json_type(e.data, '$.fields.<field>.map') IS NOT 'object'`. -/
def noMap (data : Fields JsonValue) (field : String) : Bool :=
  match data.lookup field with
  | some (.map _) => false
  | _ => true

def convertFilterValue : JsonValue → SqlValue := sqlValue

def filterClause (data : Fields JsonValue) : String × JsonValue → SqlCondition
  | (field, .null) => sqlAnd (some (fieldPath data field == .null)) (some (noMap data field))
  | (field, value) => (fieldPath data field).equal (convertFilterValue value)

def groupClauses (data : Fields JsonValue) (group : List (String × JsonValue)) : SqlCondition :=
  sqlAll (group.map (filterClause data))

def buildFilterClauses (filter : Option (List (List (String × JsonValue)))) :
    Except QueryFilter.FilterError (Fields JsonValue → SqlCondition) := do
  match ← QueryFilter.normalize filter with
  | none => pure fun _ => some true
  | some groups => pure fun data => sqlAny (groups.map (groupClauses data))

/-- Whether the `WHERE` of `query_entities` selects a row. -/
def queryEntitiesWhere (type : String) (filter : Option (List (List (String × JsonValue))))
    (row : EntityRow JsonValue) : Except QueryFilter.FilterError Bool := do
  let clauses ← buildFilterClauses filter
  pure (decide (row.type = type) && row.deletedHlc.isNone &&
    decide (clauses row.data = some true))

theorem groupClauses_eq_true (data : Fields JsonValue) (group : List (String × JsonValue)) :
    groupClauses data group = some true ↔ ∀ entry ∈ group, filterClause data entry = some true := by
  rw [groupClauses, sqlAll_eq_true, List.forall_mem_map]

theorem queryEntitiesWhere_eq {filter : Option (List (List (String × JsonValue)))}
    (valid : (filter.getD []).all QueryFilter.validGroup = true) (type : String)
    (row : EntityRow JsonValue) :
    queryEntitiesWhere type filter row = .ok true ↔
      row.type = type ∧ row.deletedHlc = none ∧
        (filter.getD [] = [] ∨ ∃ group ∈ filter.getD [], groupClauses row.data group = some true) := by
  have accepted : ∃ clauses, buildFilterClauses filter = .ok clauses ∧ (clauses row.data = some true ↔
      filter.getD [] = [] ∨ ∃ group ∈ filter.getD [], groupClauses row.data group = some true) := by
    rcases filter with _ | _ | ⟨group, rest⟩
    · exact ⟨_, rfl, iff_of_true rfl (.inl rfl)⟩
    · exact ⟨_, rfl, iff_of_true rfl (.inl rfl)⟩
    · have normalized : QueryFilter.normalize (some (group :: rest)) =
          if (group :: rest).any (fun group => group.length == 0) then .ok none
          else .ok (some (group :: rest)) := if_neg (by simpa using valid)
      rw [buildFilterClauses, normalized]
      by_cases someEmpty : ((group :: rest).any fun group => group.length == 0) = true
      · rw [if_pos someEmpty]
        refine ⟨_, rfl, iff_of_true rfl (.inr ?_)⟩
        rcases List.any_eq_true.mp someEmpty with ⟨empty, member, none⟩
        refine ⟨empty, member, ?_⟩
        rw [List.length_eq_zero_iff.mp (beq_iff_eq.mp none)]
        rfl
      · rw [if_neg someEmpty]
        refine ⟨_, rfl, ?_⟩
        rw [sqlAny_eq_true, List.mem_map]
        exact (or_iff_right (List.cons_ne_nil _ _)).symm
  rcases accepted with ⟨clauses, built, meaning⟩
  rw [queryEntitiesWhere, built, ← meaning]
  change Except.ok _ = _ ↔ _
  rw [Except.ok.injEq, Bool.and_eq_true, Bool.and_eq_true, decide_eq_true_iff, decide_eq_true_iff,
    Option.isNone_iff_eq_none, and_assoc]

end SQLite

end Ebb.Server
