import Ebb.Core.FieldAssign
import Ebb.Foundation.Json
import Ebb.Server.FieldMerge
import Mathlib.Data.List.Sort

namespace Ebb.Server

/-! The `entities` table of the server's cache: rows with their `data` column as
the JSON text reads, and the two statements that write them. -/

/-! ## Documents -/

inductive Scalar (V : Type) where
  | value (value : V)
  | text (text : String)
  | hlc (hlc : HLCTimestamp)

abbrev Document (V : Type) := Json (Scalar V)

def encodeLeaf (leaf : FieldLeaf V) : Document V :=
  match leaf.hlc with
  | none => .object [("value", .scalar (.value leaf.value)),
      ("update_id", .scalar (.text leaf.updateId))]
  | some hlc => .object [("value", .scalar (.value leaf.value)),
      ("update_id", .scalar (.text leaf.updateId)), ("hlc", .scalar (.hlc hlc))]

mutual

def encodeValue : FieldValue V → Document V
  | .leaf leaf => encodeLeaf leaf
  | .map entries => .object [("map", .object (encodeFields entries))]

def encodeFields : Fields V → List (String × Document V)
  | [] => []
  | (key, value) :: rest => (key, encodeValue value) :: encodeFields rest

end

/-- `%{"fields" => fields}` as JSON. -/
def encodeData (fields : Fields V) : Document V := .object [("fields", .object (encodeFields fields))]

mutual

def decodeValue : Document V → Option (FieldValue V)
  | .object [("map", .object entries)] =>
      match decodeFields entries with
      | none => none
      | some fields => some (.map fields)
  | .object [("value", .scalar (.value value)), ("update_id", .scalar (.text updateId))] =>
      some (.leaf { value, updateId, hlc := none })
  | .object [("value", .scalar (.value value)), ("update_id", .scalar (.text updateId)),
      ("hlc", .scalar (.hlc hlc))] =>
      some (.leaf { value, updateId, hlc := some hlc })
  | _ => none

def decodeFields : List (String × Document V) → Option (Fields V)
  | [] => some []
  | (key, document) :: rest =>
      match decodeValue document, decodeFields rest with
      | some value, some fields => some ((key, value) :: fields)
      | _, _ => none

end

def decodeData : Document V → Option (Fields V)
  | .object [("fields", .object entries)] => decodeFields entries
  | _ => none

mutual

@[simp] theorem decodeValue_encodeValue :
    ∀ value : FieldValue V, decodeValue (encodeValue value) = some value
  | .leaf ⟨value, updateId, none⟩ => by simp [encodeValue, encodeLeaf, decodeValue]
  | .leaf ⟨value, updateId, some hlc⟩ => by simp [encodeValue, encodeLeaf, decodeValue]
  | .map entries => by simp [encodeValue, decodeValue, decodeFields_encodeFields entries]

@[simp] theorem decodeFields_encodeFields :
    ∀ fields : Fields V, decodeFields (encodeFields fields) = some fields
  | [] => rfl
  | (key, value) :: rest => by
      simp [encodeFields, decodeFields, decodeValue_encodeValue value,
        decodeFields_encodeFields rest]

end

@[simp] theorem decodeData_encodeData (fields : Fields V) :
    decodeData (encodeData fields) = some fields := decodeFields_encodeFields fields

theorem lookup_encodeFields (fields : Fields V) (key : String) :
    (encodeFields fields).lookup key = (fields.lookup key).map encodeValue := by
  induction fields with
  | nil => rfl
  | cons entry rest induction =>
      rcases entry with ⟨head, value⟩
      rw [encodeFields, lookup_cons_eq, lookup_cons_eq, induction]
      split <;> rfl

theorem encodeFields_setEntry (key : String) (value : FieldValue V) (fields : Fields V) :
    encodeFields (setEntry key value fields) =
      setEntry key (encodeValue value) (encodeFields fields) := by
  induction fields with
  | nil => rfl
  | cons entry rest induction =>
      rcases entry with ⟨head, existing⟩
      rw [encodeFields, setEntry, setEntry]
      split
      · rw [encodeFields]
      · rw [encodeFields, induction]

/-- The components that reach a path of map keys from a field value. -/
def mapPath (keys : List String) : List String := keys.flatMap fun key => ["map", key]

theorem encodeValue_nestMaps (value : FieldValue V) (keys : List String) :
    encodeValue (nestMaps value keys) = Json.nest (encodeValue value) (mapPath keys) := by
  induction keys with
  | nil => rfl
  | cons key keys induction =>
      rw [nestMaps, encodeValue, encodeFields, encodeFields, induction]
      rfl

theorem set_encodeFields {value : FieldValue V} {key : String} {keys : List String}
    {entries : Fields V}
    (children : ∀ child, entries.lookup key = some child →
      Json.set (encodeValue value) (mapPath keys) (encodeValue child) =
        encodeValue (value.assign keys child)) :
    ∃ next, value.assign (key :: keys) (.map entries) = .map next ∧
      Json.set (encodeValue value) (key :: mapPath keys) (.object (encodeFields entries)) =
        .object (encodeFields next) := by
  cases found : entries.lookup key with
  | none =>
      refine ⟨setEntry key (nestMaps value keys) entries, ?_, ?_⟩
      · rw [FieldValue.assign, found]
      · rw [Json.set_of_lookup_none (by rw [lookup_encodeFields, found]; rfl),
          ← encodeValue_nestMaps, encodeFields_setEntry]
  | some child =>
      refine ⟨setEntry key (value.assign keys child) entries, ?_, ?_⟩
      · rw [FieldValue.assign, found]
      · rw [Json.set_of_lookup_some (by rw [lookup_encodeFields, found]; rfl),
          children child found, encodeFields_setEntry]

theorem set_single (value : Document V) (key : String) (path : List String)
    (child : Document V) :
    Json.set value (key :: path) (.object [(key, child)]) =
      .object [(key, Json.set value path child)] := by
  have found : [(key, child)].lookup key = some child := by simp
  rw [Json.set_of_lookup_some found]
  simp [setEntry]

theorem set_mapPath (value : FieldValue V) {keys : List String} {existing : FieldValue V}
    (opened : existing.OpenAt keys) :
    Json.set (encodeValue value) (mapPath keys) (encodeValue existing) =
      encodeValue (value.assign keys existing) := by
  induction keys generalizing existing with
  | nil => simp [mapPath, Json.set, FieldValue.assign]
  | cons key keys induction =>
      cases existing with
      | leaf leaf => exact absurd rfl (opened [] List.nil_prefix (by simp) leaf)
      | map entries =>
          rcases set_encodeFields fun child found => induction (opened.child found) with
            ⟨next, assigned, below⟩
          rw [assigned, encodeValue, encodeValue, ← below]
          exact set_single _ "map" _ _

structure StoredRow (V : Type) where
  id : String
  type : String
  data : Document V
  createdHlc : HLCTimestamp
  updatedHlc : HLCTimestamp
  deletedHlc : Option HLCTimestamp
  deletedBy : Option String
  lastGsn : Nat

namespace SQLite

/-- The upsert of a row: on a conflict `created_hlc` stays, and a row at a later
GSN stays whole. -/
def upsertEntity (row : StoredRow V) (existing : Option (StoredRow V)) : StoredRow V :=
  match existing with
  | none => row
  | some current =>
      if current.lastGsn ≤ row.lastGsn then { row with createdHlc := current.createdHlc }
      else current

/-! ### Patching fields -/

def escapedChar (char : Char) : String :=
  let escaped (letter : Char) : String := String.ofList [Char.ofNat 92, letter]
  match char.toNat with
  | 8 => escaped 'b'
  | 9 => escaped 't'
  | 10 => escaped 'n'
  | 12 => escaped 'f'
  | 13 => escaped 'r'
  | 34 => escaped char
  | 92 => escaped char
  | code =>
      let hex := String.ofList ((Nat.toDigits 16 code).map Char.toUpper)
      if code < 16 then escaped 'u' ++ "000" ++ hex
      else if code < 32 then escaped 'u' ++ "00" ++ hex
      else String.singleton char

def jsonString (text : String) : String :=
  let quote := String.singleton (Char.ofNat 34)
  quote ++ String.join (text.toList.map escapedChar) ++ quote

/-- The name `patch_entity` is given for a path, which its assignments are sorted
by. -/
def relativePath : List String → String
  | [] => ""
  | top :: keys => top ++ String.join (keys.map fun key => ".map." ++ jsonString key)

/-- The components of `$.fields.` and a relative path. -/
def documentPath : List String → List String
  | [] => ["fields"]
  | top :: keys => "fields" :: top :: mapPath keys

theorem set_documentPath (value : FieldValue V) {path : List String} {fields : Fields V}
    (nonempty : path ≠ []) (opened : (FieldValue.map fields).OpenAt path) :
    ∃ next, value.assign path (.map fields) = .map next ∧
      Json.set (encodeValue value) (documentPath path) (encodeData fields) = encodeData next := by
  cases path with
  | nil => exact absurd rfl nonempty
  | cons top keys =>
      rcases set_encodeFields fun child found => set_mapPath value (opened.child found) with
        ⟨next, assigned, below⟩
      refine ⟨next, assigned, ?_⟩
      rw [encodeData, encodeData, ← below]
      exact set_single _ "fields" _ _

def nameLe (left right : List String × Document V) : Prop :=
  (FieldMerge.codePoints (relativePath right.1)).lex (FieldMerge.codePoints (relativePath left.1)) = false

instance : DecidableRel (@nameLe V) := fun _ _ => inferInstanceAs (Decidable (_ = _))

def jsonSet (data : Document V) (assignments : List (List String × Document V)) : Document V :=
  assignments.foldl (fun data assignment =>
    Json.set assignment.2 (documentPath assignment.1) data) data

def encodeAssignment (assignment : List String × FieldValue V) : List String × Document V :=
  (assignment.1, encodeValue assignment.2)

theorem jsonSet_eq_assignAll {target : FieldValue V}
    {assignments : List (List String × FieldValue V)} {fields : Fields V}
    (nonempty : ∀ assignment ∈ assignments, assignment.1 ≠ [])
    (parts : PartsOf target assignments (.map fields)) :
    ∃ next, assignAll assignments (.map fields) = .map next ∧
      jsonSet (encodeData fields) (assignments.map encodeAssignment) = encodeData next := by
  induction assignments generalizing fields with
  | nil => exact ⟨fields, rfl, rfl⟩
  | cons assignment rest induction =>
      rcases set_documentPath assignment.2 (nonempty assignment List.mem_cons_self)
        (parts.opened assignment List.mem_cons_self) with ⟨between, assigned, set⟩
      have further := parts.tail
      rw [assigned] at further
      rcases induction (fun other member => nonempty other (List.mem_cons_of_mem _ member))
        further with ⟨next, assignedRest, setRest⟩
      refine ⟨next, ?_, ?_⟩
      · rw [assignAll, List.foldl_cons, assigned]
        exact assignedRest
      · rw [List.map_cons, jsonSet, List.foldl_cons, encodeAssignment, set]
        exact setRest

theorem insertionSort_encodeAssignment (assignments : List (List String × FieldValue V)) :
    ∃ sorted : List (List String × FieldValue V), sorted.Perm assignments ∧
      (assignments.map encodeAssignment).insertionSort nameLe = sorted.map encodeAssignment := by
  let byName (left right : List String × FieldValue V) : Prop :=
    nameLe (encodeAssignment left) (encodeAssignment right)
  have decidable : DecidableRel byName := fun _ _ => inferInstanceAs (Decidable (nameLe _ _))
  exact ⟨assignments.insertionSort byName, List.perm_insertionSort byName assignments,
    (List.map_insertionSort byName nameLe encodeAssignment assignments
      fun _ _ _ _ => Iff.rfl).symm⟩

structure PatchMeta where
  type : String
  updatedHlc : HLCTimestamp
  deletedHlc : Option HLCTimestamp
  deletedBy : Option String
  lastGsn : Nat

def patchEntity (fields : List (List String × Document V)) (patch : PatchMeta)
    (existing : Option (StoredRow V)) : Option (StoredRow V) :=
  match existing with
  | none => none
  | some current =>
      if current.lastGsn ≤ patch.lastGsn then
        some { current with
          data := jsonSet current.data (fields.insertionSort nameLe)
          type := patch.type
          updatedHlc := patch.updatedHlc
          deletedHlc := patch.deletedHlc
          deletedBy := patch.deletedBy
          lastGsn := patch.lastGsn }
      else some current

end SQLite

end Ebb.Server
