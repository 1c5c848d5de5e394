import Ebb.Server.EntityStore
import Ebb.Server.Sqlite

namespace Ebb.Server.EntityStore

/-! Materialization over a cached row: the Updates above the row's GSN are
replayed on its document, and the result is written back either whole or one
assignment for each touched path. -/

/-! ## Assignments -/

def isMapField : FieldValue V → Bool
  | .map _ => true
  | .leaf _ => false

def navigateMap : FieldValue V → List String → Option (FieldValue V)
  | value, [] => some value
  | .leaf _, _ :: _ => none
  | .map entries, key :: rest =>
      match entries.lookup key with
      | none => none
      | some value => navigateMap value rest

inductive Descent (V : Type) where
  | found (value : FieldValue V)
  | missing
  | blocked

def descendMap : FieldValue V → List String → Descent V
  | current, [] => .found current
  | .leaf _, _ :: _ => .blocked
  | .map entries, key :: rest =>
      match entries.lookup key with
      | none => .missing
      | some next => descendMap next rest

/-- An assignment below a leaf of the stored document would leave the leaf's
other keys standing. -/
def baseNestedCompatible (baseField : FieldValue V) : List String → Bool
  | [_] => true
  | keys =>
      match descendMap baseField keys.dropLast with
      | .found parent => isMapField parent
      | .missing => true
      | .blocked => false

abbrev Assignment (V : Type) := FieldPath × FieldValue V

def nestedPathFields (top : String) (baseField mergedField : FieldValue V)
    (paths : List FieldPath) : List (Assignment V) :=
  let values := paths.map fun path => (path, navigateMap mergedField path.tail)
  if paths.all (fun path => baseNestedCompatible baseField path.tail) &&
      values.all (fun value => value.2.isSome) then
    values.filterMap fun value => value.2.map fun found => (value.1, found)
  else [([top], mergedField)]

def patchFields (top : String) (baseField : Option (FieldValue V)) (mergedField : FieldValue V)
    (paths : List FieldPath) : List (Assignment V) :=
  let nested := paths.filter fun path => path.length ≠ 1
  if isMapField mergedField && !nested.isEmpty then
    match baseField with
    | some (.map entries) => nestedPathFields top (.map entries) mergedField nested
    | _ => [([top], mergedField)]
  else [([top], mergedField)]

/-- The assignments that write a replay's touched paths, grouped by field. A
touched field is always among the merged ones. -/
def buildPatchFields (changed : List FieldPath) (currentData mergedData : Fields V) :
    List (Assignment V) :=
  (changed.filterMap List.head?).dedup.flatMap fun top =>
    match mergedData.lookup top with
    | none => []
    | some mergedField =>
        patchFields top (currentData.lookup top) mergedField
          (changed.filter fun path => path.head? = some top)

/-! ## Writing back -/

def isNameStart (char : Char) : Bool :=
  isLowerLetter char || ('A' ≤ char && char ≤ 'Z') || char = '_'

def isNameChar (char : Char) : Bool := isNameStart char || ('0' ≤ char && char ≤ '9')

/-- The pattern `^[A-Za-z_][A-Za-z0-9_]*$`, whose end also matches before a final
newline. -/
def isFieldName (name : String) : Bool :=
  let chars := name.toList
  let line := if chars.getLast? = some '\n' then chars.dropLast else chars
  match line with
  | [] => false
  | head :: rest => isNameStart head && rest.all isNameChar

def safeChangedPaths (changed : List FieldPath) : Bool :=
  changed.all fun path => path.head?.all isFieldName

def EntityRow.stored (row : EntityRow V) : StoredRow V where
  id := row.id
  type := row.type
  data := encodeData row.data
  createdHlc := row.createdHlc
  updatedHlc := row.updatedHlc
  deletedHlc := row.deletedHlc
  deletedBy := row.deletedBy
  lastGsn := row.lastGsn

def EntityRow.patchMeta (row : EntityRow V) : SQLite.PatchMeta where
  type := row.type
  updatedHlc := row.updatedHlc
  deletedHlc := row.deletedHlc
  deletedBy := row.deletedBy
  lastGsn := row.lastGsn

def handleMaterializedResult (entityId : String) (result : Replay V)
    (existing : Option (StoredRow V)) (currentData : Fields V) : Option (StoredRow V) :=
  let row := result.row entityId
  if result.dataMode = .patch ∧ existing.isSome ∧ safeChangedPaths result.changed then
    SQLite.patchEntity
      ((buildPatchFields result.changed.dedup currentData result.data).map
        SQLite.encodeAssignment)
      row.patchMeta existing
  else some (SQLite.upsertEntity row.stored existing)

/-- The document a replay starts from. What the table holds decodes. -/
def currentData (row : Option (StoredRow V)) : Fields V :=
  match row with
  | none => []
  | some row => (decodeData row.data).getD []

/-- One `materialize` call: the row of the entity after it. -/
def materialize (entityId : String) (actions : List (Action V)) (row : Option (StoredRow V)) :
    Option (StoredRow V) :=
  let lastGsn := (row.map StoredRow.lastGsn).getD 0
  match relevantActions actions entityId lastGsn with
  | [] => row
  | relevant =>
      handleMaterializedResult entityId (replay (currentData row) relevant entityId) row
        (currentData row)

end Ebb.Server.EntityStore
