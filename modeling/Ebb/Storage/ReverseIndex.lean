import Ebb.Storage.Materialize

namespace Ebb.Storage

/-! The adjacency indices of `packages/storage/src/internal/reverse-index.ts`: the entry a
row adds in each direction, and the deltas that keep an index in step with its rows. -/

structure IndexEntry where
  key : String
  rowId : String
  value : String
deriving DecidableEq

/-- Live rows under each composite key. -/
abbrev ReverseIndex := OrderedMap String (OrderedMap String String)

def separator : String := String.singleton (Char.ofNat 0)

def reverseIndexKey (field type targetId : String) : String :=
  field ++ separator ++ type ++ separator ++ targetId

def forwardIndexKey (field type sourceId : String) : String :=
  String.singleton (Char.ofNat 1) ++ reverseIndexKey field type sourceId

def relationshipEntityType : String := "relationship"

def membershipEntityType : String := "entityGroup"

def membershipAccessor : String := "groups"

def membershipIndexKey (groupId : String) : String :=
  reverseIndexKey membershipAccessor membershipEntityType groupId

def forwardMembershipIndexKey (entityId : String) : String :=
  forwardIndexKey membershipAccessor membershipEntityType entityId

/-! ## The entries of a row -/

section Entries

variable (asString : V → Option String)

def readStringField (entity : Entity V) (name : String) : Option String :=
  match entity.fields.lookup name with
  | some (.leaf leaf) => asString leaf.value
  | _ => none

/-- The entry of a live row of one type with both ends. -/
def entryOf (entity : Entity V) (type : String) (entry : Option IndexEntry) :
    Option IndexEntry :=
  if entity.type ≠ type then none
  else if entity.deletedHlc.isSome then none
  else entry

def relationshipEntryFor (entity : Entity V) : Option IndexEntry :=
  entryOf entity relationshipEntityType do
    let field ← readStringField asString entity "field"
    let type ← readStringField asString entity "type"
    let targetId ← readStringField asString entity "target_id"
    let sourceId ← readStringField asString entity "source_id"
    some { key := reverseIndexKey field type targetId, rowId := entity.id, value := sourceId }

def forwardRelationshipEntryFor (entity : Entity V) : Option IndexEntry :=
  entryOf entity relationshipEntityType do
    let field ← readStringField asString entity "field"
    let type ← readStringField asString entity "type"
    let sourceId ← readStringField asString entity "source_id"
    let targetId ← readStringField asString entity "target_id"
    some { key := forwardIndexKey field type sourceId, rowId := entity.id, value := targetId }

def membershipEntryFor (entity : Entity V) : Option IndexEntry :=
  entryOf entity membershipEntityType do
    let groupId ← readStringField asString entity "group_id"
    let entityId ← readStringField asString entity "entity_id"
    some { key := membershipIndexKey groupId, rowId := entity.id, value := entityId }

def forwardMembershipEntryFor (entity : Entity V) : Option IndexEntry :=
  entryOf entity membershipEntityType do
    let groupId ← readStringField asString entity "group_id"
    let entityId ← readStringField asString entity "entity_id"
    some { key := forwardMembershipIndexKey entityId, rowId := entity.id, value := groupId }

def indexEntryFor (entity : Entity V) : Option IndexEntry :=
  (relationshipEntryFor asString entity).or (membershipEntryFor asString entity)

def forwardIndexEntryFor (entity : Entity V) : Option IndexEntry :=
  (forwardRelationshipEntryFor asString entity).or (forwardMembershipEntryFor asString entity)

variable {entity : Entity V}

theorem rowId_entryOf {type : String} {entry : Option IndexEntry}
    (named : ∀ found ∈ entry, found.rowId = entity.id) :
    ∀ found ∈ entryOf entity type entry, found.rowId = entity.id := by
  intro found member
  rw [entryOf] at member
  split at member
  · cases member
  · split at member
    · cases member
    · exact named found member

theorem rowId_indexEntryFor {entry : IndexEntry}
    (found : indexEntryFor asString entity = some entry) : entry.rowId = entity.id := by
  rcases Option.or_eq_some_iff.mp found with relationship | ⟨_, membership⟩
  · apply rowId_entryOf ?_ entry relationship
    intro other member
    simp only [Option.mem_def, Option.bind_eq_bind, Option.bind_eq_some_iff] at member
    rcases member with ⟨_, _, _, _, _, _, _, _, equal⟩
    cases equal
    rfl
  · apply rowId_entryOf ?_ entry membership
    intro other member
    simp only [Option.mem_def, Option.bind_eq_bind, Option.bind_eq_some_iff] at member
    rcases member with ⟨_, _, _, _, equal⟩
    cases equal
    rfl

theorem rowId_forwardIndexEntryFor {entry : IndexEntry}
    (found : forwardIndexEntryFor asString entity = some entry) : entry.rowId = entity.id := by
  rcases Option.or_eq_some_iff.mp found with relationship | ⟨_, membership⟩
  · apply rowId_entryOf ?_ entry relationship
    intro other member
    simp only [Option.mem_def, Option.bind_eq_bind, Option.bind_eq_some_iff] at member
    rcases member with ⟨_, _, _, _, _, _, _, _, equal⟩
    cases equal
    rfl
  · apply rowId_entryOf ?_ entry membership
    intro other member
    simp only [Option.mem_def, Option.bind_eq_bind, Option.bind_eq_some_iff] at member
    rcases member with ⟨_, _, _, _, equal⟩
    cases equal
    rfl

end Entries

/-! ## Deltas -/

namespace ReverseIndex

def addIndexRow (rows : Option (OrderedMap String String)) (entry : IndexEntry) :
    OrderedMap String String :=
  (rows.getD .empty).set entry.rowId entry.value

/-- The rows without one; nothing when no live row remains. -/
def removeIndexRow (rows : Option (OrderedMap String String)) (entry : IndexEntry) :
    Option (OrderedMap String String) :=
  let next := (rows.getD .empty).erase entry.rowId
  if next.keys = [] then none else some next

structure IndexDelta where
  remove : Option IndexEntry
  add : Option IndexEntry

/-- The change two versions of a row imply in one direction. -/
def indexDelta (entryFor : Entity V → Option IndexEntry) (previous next : Option (Entity V)) :
    IndexDelta :=
  let remove := previous.bind entryFor
  let add := next.bind entryFor
  if remove = add then { remove := none, add := none } else { remove, add }

def withEntry (index : ReverseIndex) (entry : IndexEntry)
    (rows : Option (OrderedMap String String)) : ReverseIndex :=
  match rows with
  | none => index.erase entry.key
  | some rows => index.set entry.key rows

def removeEntry (index : ReverseIndex) (entry : IndexEntry) : ReverseIndex :=
  withEntry index entry (removeIndexRow (index.get? entry.key) entry)

def addEntry (index : ReverseIndex) (entry : IndexEntry) : ReverseIndex :=
  withEntry index entry (some (addIndexRow (index.get? entry.key) entry))

def applyIndexDelta (index : ReverseIndex) (delta : IndexDelta) : ReverseIndex :=
  let removed := match delta.remove with
    | none => index
    | some entry => removeEntry index entry
  match delta.add with
  | none => removed
  | some entry => addEntry removed entry

/-! ## Reading an index -/

def row? (index : ReverseIndex) (key rowId : String) : Option String :=
  (index.get? key).bind fun rows => rows.get? rowId

variable {entryFor : Entity V → Option IndexEntry} {previous : Option (Entity V)}
  (index : ReverseIndex) (entry : IndexEntry) (rows : Option (OrderedMap String String))

theorem row?_withEntry (key rowId : String) :
    row? (withEntry index entry rows) key rowId =
      if key = entry.key then rows.bind fun rows => rows.get? rowId else row? index key rowId := by
  cases rows with
  | none =>
      rw [withEntry, row?, OrderedMap.get?_erase]
      split
      · rfl
      · rfl
  | some rows =>
      rw [withEntry, row?, OrderedMap.get?_set]
      split
      · rfl
      · rfl

theorem get?_removeIndexRow (entry : IndexEntry) (rowId : String) :
    ((removeIndexRow rows entry).bind fun rows => rows.get? rowId) =
      if rowId = entry.rowId then none else rows.bind fun rows => rows.get? rowId := by
  have erased : ((rows.getD .empty).erase entry.rowId).get? rowId =
      if rowId = entry.rowId then none else rows.bind fun rows => rows.get? rowId := by
    rw [OrderedMap.get?_erase]
    cases rows with
    | none => rfl
    | some rows => rfl
  rw [← erased, removeIndexRow]
  split
  · next empty =>
      cases found : ((rows.getD .empty).erase entry.rowId).get? rowId with
      | none => rfl
      | some value =>
          have member := (OrderedMap.mem_keys_iff _ rowId).mpr ⟨value, found⟩
          rw [empty] at member
          cases member
  · rfl

theorem row?_removeEntry (key rowId : String) :
    row? (removeEntry index entry) key rowId =
      if key = entry.key ∧ rowId = entry.rowId then none else row? index key rowId := by
  rw [removeEntry, row?_withEntry, get?_removeIndexRow]
  by_cases sameKey : key = entry.key
  · by_cases sameRow : rowId = entry.rowId
    · simp [sameKey, sameRow]
    · simp [sameKey, sameRow, row?]
  · simp [sameKey]

theorem row?_addEntry (key rowId : String) :
    row? (addEntry index entry) key rowId =
      if key = entry.key ∧ rowId = entry.rowId then some entry.value else row? index key rowId := by
  rw [addEntry, row?_withEntry, Option.bind_some, addIndexRow, OrderedMap.get?_set]
  by_cases sameKey : key = entry.key
  · by_cases sameRow : rowId = entry.rowId
    · simp [sameKey, sameRow]
    · simp only [sameKey, sameRow, row?, if_true, if_false, and_false]
      cases index.get? entry.key with
      | none => rfl
      | some rows => rfl
  · simp [sameKey]

/-- The index has exactly one row's entry under the row's id. -/
def Indexes (index : ReverseIndex) (entryFor : Entity V → Option IndexEntry) (rowId : String)
    (row : Option (Entity V)) : Prop :=
  ∀ key value, row? index key rowId = some value ↔
    ∃ entry, row.bind entryFor = some entry ∧ entry.key = key ∧ entry.value = value

theorem Indexes.applied {index : ReverseIndex} {rowId : String} {next : Option (Entity V)}
    (indexes : Indexes index entryFor rowId previous)
    (previousNamed : ∀ entry, previous.bind entryFor = some entry → entry.rowId = rowId)
    (nextNamed : ∀ entry, next.bind entryFor = some entry → entry.rowId = rowId) :
    Indexes (applyIndexDelta index (indexDelta entryFor previous next)) entryFor rowId next := by
  intro key value
  rw [indexDelta]
  split
  · next same =>
      rw [← same]
      exact indexes key value
  · rw [applyIndexDelta]
    have removed : ∀ key value, row? (match previous.bind entryFor with
        | none => index
        | some entry => removeEntry index entry) key rowId ≠ some value := by
      intro key value found
      cases held : previous.bind entryFor with
      | none =>
          rw [held] at found
          rcases (indexes key value).mp found with ⟨entry, present, _⟩
          rw [held] at present
          cases present
      | some entry =>
          rw [held] at found
          dsimp only at found
          rw [row?_removeEntry] at found
          split at found
          · cases found
          · next elsewhere =>
              rcases (indexes key value).mp found with ⟨other, present, rfl, _⟩
              rw [held] at present
              cases present
              exact elsewhere ⟨rfl, (previousNamed entry held).symm⟩
    cases added : next.bind entryFor with
    | none =>
        dsimp only
        constructor
        · exact fun found => absurd found (removed key value)
        · rintro ⟨entry, absent, _⟩
          cases absent
    | some entry =>
        dsimp only
        rw [row?_addEntry, nextNamed entry added]
        constructor
        · intro found
          split at found
          · next here => exact ⟨entry, rfl, here.1.symm, Option.some.inj found⟩
          · exact absurd found (removed key value)
        · rintro ⟨other, same, rfl, rfl⟩
          cases same
          rw [if_pos ⟨rfl, rfl⟩]

theorem Indexes.other {index : ReverseIndex} {rowId changed : String} {row next : Option (Entity V)}
    (indexes : Indexes index entryFor rowId row) (different : rowId ≠ changed)
    (previousNamed : ∀ entry, previous.bind entryFor = some entry → entry.rowId = changed)
    (nextNamed : ∀ entry, next.bind entryFor = some entry → entry.rowId = changed) :
    Indexes (applyIndexDelta index (indexDelta entryFor previous next)) entryFor rowId row := by
  intro key value
  rw [← indexes key value]
  have same : row? (applyIndexDelta index (indexDelta entryFor previous next)) key rowId =
      row? index key rowId := by
    rw [indexDelta]
    split
    · rfl
    · rw [applyIndexDelta]
      have removed : row? (match previous.bind entryFor with
          | none => index
          | some entry => removeEntry index entry) key rowId = row? index key rowId := by
        cases held : previous.bind entryFor with
        | none => rfl
        | some entry =>
            dsimp only
            rw [row?_removeEntry, previousNamed entry held, if_neg fun here => different here.2]
      cases added : next.bind entryFor with
      | none => exact removed
      | some entry =>
          dsimp only
          rw [row?_addEntry, nextNamed entry added, if_neg fun here => different here.2]
          exact removed
  rw [same]

end ReverseIndex

end Ebb.Storage
