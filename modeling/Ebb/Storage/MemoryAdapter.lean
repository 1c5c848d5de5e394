import Ebb.Storage.StorageAdapter

namespace Ebb.Storage

/-! The adapter that keeps everything in memory (`packages/storage/src/memory`). Its records are
objects of the language; a name that every object inherits is no key of theirs here. -/

/-- A `Set` with one more member. -/
def addToSet (ids : List String) (id : String) : List String :=
  if id ∈ ids then ids else ids ++ [id]

/-- The members of a `Set` in a record of them. -/
def setAt (sets : OrderedMap String (List String)) (type : String) : List String :=
  (sets.get? type).getD []

structure MemoryDirtyTracker where
  entities : OrderedMap String String
  typeIndex : OrderedMap String (List String)

namespace MemoryDirtyTracker

def empty : MemoryDirtyTracker where
  entities := .empty
  typeIndex := .empty

def mark (state : MemoryDirtyTracker) (entityId entityType : String) : MemoryDirtyTracker :=
  if state.entities.contains entityId then state
  else {
    entities := state.entities.set entityId entityType
    typeIndex := state.typeIndex.set entityType (addToSet (setAt state.typeIndex entityType)
      entityId) }

def isDirty (state : MemoryDirtyTracker) (entityId : String) : Bool :=
  state.entities.contains entityId

def getDirtyForType (state : MemoryDirtyTracker) (entityType : String) : List String :=
  setAt state.typeIndex entityType

/-- Nothing is cleared of an entity marked under the empty type. -/
def clear (state : MemoryDirtyTracker) (entityId : String) : MemoryDirtyTracker :=
  match state.entities.get? entityId with
  | none => state
  | some entityType =>
      if entityType = "" then state
      else {
        entities := state.entities.erase entityId
        typeIndex := state.typeIndex.set entityType ((setAt state.typeIndex entityType).erase
          entityId) }

end MemoryDirtyTracker

/-! ## The EntityStore -/

structure MemoryEntityStore (V : Type) where
  entities : OrderedMap String (Entity V)
  typeIndex : OrderedMap String (List String)
  index : ReverseIndex

namespace MemoryEntityStore

variable (asString : V → Option String)

def empty : MemoryEntityStore V where
  entities := .empty
  typeIndex := .empty
  index := .empty

/-- An entity leaves the set of the type it had, unless that type is empty. -/
def updateTypeIndexOnSet (typeIndex : OrderedMap String (List String)) (entity : Entity V)
    (oldType : Option String) : OrderedMap String (List String) :=
  let newTypeIndex := match oldType with
    | none => typeIndex
    | some oldType =>
        if oldType ≠ "" ∧ oldType ≠ entity.type then
          typeIndex.set oldType ((setAt typeIndex oldType).erase entity.id)
        else typeIndex
  newTypeIndex.set entity.type (addToSet (setAt newTypeIndex entity.type) entity.id)

def updateIndex (index : ReverseIndex) (previous next : Option (Entity V)) : ReverseIndex :=
  ReverseIndex.applyIndexDelta
    (ReverseIndex.applyIndexDelta index
      (ReverseIndex.indexDelta (indexEntryFor asString) previous next))
    (ReverseIndex.indexDelta (forwardIndexEntryFor asString) previous next)

def write (state : MemoryEntityStore V) (entityId : String) (entity : Entity V) :
    MemoryEntityStore V :=
  let oldEntity := state.entities.get? entityId
  { entities := state.entities.set entityId entity
    typeIndex := updateTypeIndexOnSet state.typeIndex entity (oldEntity.map Entity.type)
    index := updateIndex asString state.index oldEntity (some entity) }

end MemoryEntityStore

/-! ## The adapter -/

/-- `slice` from a position, which counts from the end when it is negative. -/
def sliceFrom (items : List α) (start : Int) : List α :=
  items.drop (if start < 0 then (items.length + start).toNat else start.toNat)

structure MemoryAdapter (V : Type) where
  actionLog : ActionLog V
  dirtyTracker : MemoryDirtyTracker
  entityStore : MemoryEntityStore V

namespace MemoryAdapter

variable (asString : V → Option String)

def create : MemoryAdapter V where
  actionLog := []
  dirtyTracker := .empty
  entityStore := .empty

def markAll (adapter : MemoryAdapter V) (updates : List (Update V)) : MemoryAdapter V :=
  updates.foldl (fun adapter update => { adapter with
    dirtyTracker := adapter.dirtyTracker.mark update.subjectId update.subjectType }) adapter

def append (adapter : MemoryAdapter V) (action : Action V) :
    MemoryAdapter V × LoggedAction V :=
  let appended := adapter.actionLog.append action
  ({ adapter with actionLog := appended.1 }.markAll action.updates, appended.2)

def appendMany (adapter : MemoryAdapter V) (actions : List (Action V)) :
    MemoryAdapter V × List (LoggedAction V) :=
  let appended := adapter.actionLog.appendAll actions
  ({ adapter with actionLog := appended.1 }.markAll (actions.flatMap Action.updates), appended.2)

def readTail (adapter : MemoryAdapter V) (afterPosition : Int) : List (TailEntry V) :=
  (sliceFrom adapter.actionLog afterPosition).mapIdx fun offset action =>
    { action, position := afterPosition + offset + 1, added := action.updates }

def replay (adapter : MemoryAdapter V) (entityId : String) : MemoryAdapter V :=
  if adapter.dirtyTracker.isDirty entityId then
    match Storage.replay (adapter.actionLog.getForEntity entityId) entityId with
    | none => adapter
    | some entity => { adapter with
        entityStore := adapter.entityStore.write asString entityId entity
        dirtyTracker := adapter.dirtyTracker.clear entityId }
  else adapter

def materializeDirtyType (adapter : MemoryAdapter V) (entityType : String) : MemoryAdapter V :=
  (adapter.dirtyTracker.getDirtyForType entityType).foldl (replay asString) adapter

def rowsAt (adapter : MemoryAdapter V) (key : String) : List (String × String) :=
  ((adapter.entityStore.index.get? key).getD .empty).entries

def call (adapter : MemoryAdapter V) : AdapterCall V → MemoryAdapter V × AdapterReply V
  | .append action =>
      let appended := adapter.append action
      (appended.1, .logged appended.2)
  | .appendMany actions =>
      let appended := adapter.appendMany actions
      (appended.1, .loggedMany appended.2)
  | .readTail afterPosition => (adapter, .tail (adapter.readTail afterPosition))
  | .lastPosition => (adapter, .position adapter.actionLog.length)
  | .getAll => (adapter, .allActions adapter.actionLog)
  | .getForEntity entityId => (adapter, .entityActions (adapter.actionLog.getForEntity entityId))
  | .get id =>
      let adapter := adapter.replay asString id
      (adapter, .entity (adapter.entityStore.entities.get? id))
  | .query type =>
      let adapter := adapter.materializeDirtyType asString type
      (adapter, .entities ((setAt adapter.entityStore.typeIndex type).filterMap fun id =>
        adapter.entityStore.entities.get? id))
  | .queryByRelationship as type targetId =>
      let adapter := adapter.materializeDirtyType asString relationshipEntityType
      (adapter, .ids ((adapter.rowsAt (reverseIndexKey as type targetId)).map Prod.snd))
  | .queryByRelationshipSource as type sourceId =>
      let adapter := adapter.materializeDirtyType asString relationshipEntityType
      (adapter, .links (adapter.rowsAt (forwardIndexKey as type sourceId)))
  | .queryByMembership groupId =>
      let adapter := adapter.materializeDirtyType asString membershipEntityType
      (adapter, .ids ((adapter.rowsAt (membershipIndexKey groupId)).map Prod.snd))
  | .queryByMembershipEntity entityId =>
      let adapter := adapter.materializeDirtyType asString membershipEntityType
      (adapter, .links (adapter.rowsAt (forwardMembershipIndexKey entityId)))
  | .mark entityId entityType =>
      ({ adapter with dirtyTracker := adapter.dirtyTracker.mark entityId entityType }, .done)
  | .isDirty entityId => (adapter, .dirty (adapter.dirtyTracker.isDirty entityId))
  | .getDirtyForType entityType =>
      (adapter, .ids (adapter.dirtyTracker.getDirtyForType entityType))
  | .clearDirty entityId =>
      ({ adapter with dirtyTracker := adapter.dirtyTracker.clear entityId }, .done)
  | .clearAllDirty => ({ adapter with dirtyTracker := .empty }, .done)
  | .clear => (create, .done)
  | .reset => (create, .done)

/-! ## What it holds -/

def view (adapter : MemoryAdapter V) : AdapterView V where
  log := adapter.actionLog
  entities := fun id => adapter.entityStore.entities.get? id
  dirty := fun id => adapter.dirtyTracker.entities.get? id
  rows := fun rowId key => adapter.entityStore.index.row? key rowId

/-- The sets by type list what the records hold. -/
structure Indexed (adapter : MemoryAdapter V) : Prop where
  types : ∀ type id, id ∈ setAt adapter.entityStore.typeIndex type ↔
    ∃ row, adapter.entityStore.entities.get? id = some row ∧ row.type = type
  typesNodup : ∀ type, (setAt adapter.entityStore.typeIndex type).Nodup
  dirty : ∀ type id, id ∈ setAt adapter.dirtyTracker.typeIndex type ↔
    adapter.dirtyTracker.entities.get? id = some type
  dirtyNodup : ∀ type, (setAt adapter.dirtyTracker.typeIndex type).Nodup

theorem indexed_create : Indexed (create : MemoryAdapter V) where
  types := by
    intro type id
    constructor
    · exact nofun
    · rintro ⟨_, absent, _⟩
      cases absent
  typesNodup := fun _ => List.nodup_nil
  dirty := by
    intro type id
    constructor
    · exact nofun
    · exact nofun
  dirtyNodup := fun _ => List.nodup_nil

theorem mem_addToSet {ids : List String} {id other : String} :
    other ∈ addToSet ids id ↔ other ∈ ids ∨ other = id := by
  unfold addToSet
  by_cases member : id ∈ ids
  · rw [if_pos member]
    exact ⟨.inl, fun either => either.elim (fun held => held) fun same => same ▸ member⟩
  · rw [if_neg member, List.mem_append, List.mem_singleton]

theorem nodup_addToSet {ids : List String} (nodup : ids.Nodup) (id : String) :
    (addToSet ids id).Nodup := by
  unfold addToSet
  by_cases member : id ∈ ids
  · rwa [if_pos member]
  · rw [if_neg member]
    exact List.concat_eq_append ▸ nodup.concat member

theorem setAt_set (sets : OrderedMap String (List String)) (type other : String)
    (ids : List String) : setAt (sets.set type ids) other =
      if other = type then ids else setAt sets other := by
  rw [setAt, OrderedMap.get?_set]
  split
  · rfl
  · rfl

/-! ### Dirty marks -/

theorem mark_spec (adapter : MemoryAdapter V) (indexed : Indexed adapter)
    (entityId entityType : String) :
    ({ adapter with dirtyTracker := adapter.dirtyTracker.mark entityId entityType }).view =
        adapter.view.mark entityId entityType ∧
      Indexed { adapter with dirtyTracker := adapter.dirtyTracker.mark entityId entityType } := by
  unfold MemoryDirtyTracker.mark AdapterView.mark
  by_cases known : adapter.dirtyTracker.entities.contains entityId = true
  · rw [if_pos known, if_pos (show (adapter.view.dirty entityId).isSome = true from known)]
    exact ⟨rfl, indexed⟩
  · rw [if_neg known, if_neg (show ¬ (adapter.view.dirty entityId).isSome = true from known)]
    constructor
    · simp only [view, OrderedMap.get?_set, ← Function.update_apply]
    · refine { indexed with dirty := fun type id => ?_, dirtyNodup := fun type => ?_ }
      · have absent : adapter.dirtyTracker.entities.get? entityId = none :=
          Option.not_isSome_iff_eq_none.mp known
        rw [setAt_set, OrderedMap.get?_set]
        by_cases same : id = entityId
        · rw [if_pos same, Option.some.injEq, @eq_comm _ entityType]
          by_cases here : type = entityType
          · rw [if_pos here, mem_addToSet]
            exact iff_of_true (.inr same) here
          · rw [if_neg here, indexed.dirty, same, absent]
            exact iff_of_false nofun here
        · rw [if_neg same]
          by_cases here : type = entityType
          · rw [if_pos here, mem_addToSet, or_iff_left same, ← here, indexed.dirty]
          · rw [if_neg here, indexed.dirty]
      · rw [setAt_set]
        split
        · exact nodup_addToSet (indexed.dirtyNodup entityType) entityId
        · exact indexed.dirtyNodup type

theorem clear_spec (adapter : MemoryAdapter V) (indexed : Indexed adapter) (entityId : String)
    (named : ∀ type, adapter.dirtyTracker.entities.get? entityId = some type → type ≠ "") :
    ({ adapter with dirtyTracker := adapter.dirtyTracker.clear entityId }).view =
        adapter.view.unmark entityId ∧
      Indexed { adapter with dirtyTracker := adapter.dirtyTracker.clear entityId } := by
  unfold MemoryDirtyTracker.clear
  cases held : adapter.dirtyTracker.entities.get? entityId with
  | none =>
      refine ⟨?_, indexed⟩
      have unmarked : Function.update adapter.view.dirty entityId none = adapter.view.dirty :=
        Function.update_eq_self_iff.mpr held.symm
      rw [AdapterView.unmark, unmarked]
  | some entityType =>
      simp only [if_neg (named entityType held)]
      constructor
      · simp only [view, OrderedMap.get?_erase, ← Function.update_apply]
        rfl
      · refine { indexed with dirty := fun type id => ?_, dirtyNodup := fun type => ?_ }
        · rw [setAt_set, OrderedMap.get?_erase]
          by_cases same : id = entityId
          · rw [if_pos same, same]
            refine iff_of_false (fun member => ?_) nofun
            by_cases here : type = entityType
            · rw [if_pos here] at member
              exact (indexed.dirtyNodup entityType).not_mem_erase member
            · rw [if_neg here, indexed.dirty, held] at member
              exact here (Option.some.inj member).symm
          · rw [if_neg same]
            by_cases here : type = entityType
            · rw [if_pos here, List.mem_erase_of_ne same, ← here, indexed.dirty]
            · rw [if_neg here, indexed.dirty]
        · rw [setAt_set]
          split
          · exact (indexed.dirtyNodup entityType).erase entityId
          · exact indexed.dirtyNodup type

/-! ### Rows -/

theorem setAt_updateTypeIndexOnSet {typeIndex : OrderedMap String (List String)}
    {entities : OrderedMap String (Entity V)} {entity : Entity V} {entityId : String}
    (types : ∀ type id, id ∈ setAt typeIndex type ↔
      ∃ row, entities.get? id = some row ∧ row.type = type)
    (nodup : ∀ type, (setAt typeIndex type).Nodup) (under : entity.id = entityId)
    (named : ∀ row ∈ entities.get? entityId, row.type ≠ "") (type : String) :
    (∀ id, id ∈ setAt (MemoryEntityStore.updateTypeIndexOnSet typeIndex entity
        ((entities.get? entityId).map Entity.type)) type ↔
      ∃ row, (entities.set entityId entity).get? id = some row ∧ row.type = type) ∧
    (setAt (MemoryEntityStore.updateTypeIndexOnSet typeIndex entity
      ((entities.get? entityId).map Entity.type)) type).Nodup := by
  subst under
  -- The row has left the set of every type but the one it is written with.
  have left : ∃ between, MemoryEntityStore.updateTypeIndexOnSet typeIndex entity
        ((entities.get? entity.id).map Entity.type) =
          between.set entity.type (addToSet (setAt between entity.type) entity.id) ∧
      (∀ type id, id ∈ setAt between type ↔ id ∈ setAt typeIndex type ∧
        (id = entity.id → type = entity.type)) ∧ ∀ type, (setAt between type).Nodup := by
    refine ⟨_, rfl, ?_⟩
    cases held : entities.get? entity.id with
    | none =>
        simp only [Option.map_none]
        refine ⟨fun type id => ?_, nodup⟩
        rw [iff_self_and, types]
        rintro ⟨row, found, _⟩ same
        rw [same, held] at found
        cases found
    | some old =>
        by_cases moved : old.type ≠ "" ∧ old.type ≠ entity.type
        · simp only [Option.map_some, if_pos moved]
          refine ⟨fun type id => ?_, fun type => ?_⟩
          · rw [setAt_set]
            by_cases here : type = old.type
            · subst here
              rw [if_pos rfl, (nodup old.type).mem_erase_iff, and_comm]
              apply and_congr_right
              intro _
              exact ⟨fun other same => absurd same other, fun stays same => moved.2 (stays same)⟩
            · rw [if_neg here, iff_self_and, types]
              rintro ⟨row, found, rfl⟩ same
              rw [same, held] at found
              cases found
              exact absurd rfl here
          · rw [setAt_set]
            split
            · exact (nodup old.type).erase entity.id
            · exact nodup type
        · simp only [Option.map_some, if_neg moved]
          refine ⟨fun type id => ?_, nodup⟩
          rw [iff_self_and, types]
          rintro ⟨row, found, rfl⟩ same
          rw [same, held] at found
          cases found
          exact Decidable.not_not.mp fun other => moved ⟨named old held, other⟩
  rcases left with ⟨between, equal, members, nodups⟩
  rw [equal, setAt_set]
  constructor
  · intro id
    rw [OrderedMap.get?_set]
    by_cases same : id = entity.id
    · subst same
      rw [if_pos rfl]
      by_cases here : type = entity.type
      · rw [if_pos here, mem_addToSet]
        exact iff_of_true (.inr rfl) ⟨entity, rfl, here.symm⟩
      · rw [if_neg here, members]
        refine iff_of_false (fun member => here (member.2 rfl)) ?_
        rintro ⟨_, ⟨⟩, rfl⟩
        exact here rfl
    · rw [if_neg same, ← types]
      by_cases here : type = entity.type
      · rw [if_pos here, mem_addToSet, or_iff_left same, members, here]
        exact and_iff_left fun self => absurd self same
      · rw [if_neg here, members]
        exact and_iff_left fun self => absurd self same
  · split
    · exact nodup_addToSet (nodups entity.type) entity.id
    · exact nodups type

section

variable {adapter : MemoryAdapter V} (indexed : Indexed adapter)
include indexed

theorem write_spec (orderly : adapter.view.Orderly) {entityId : String} {entity : Entity V}
    (under : entity.id = entityId) :
    ({ adapter with entityStore := adapter.entityStore.write asString entityId entity }).view =
        { adapter.view with
          entities := Function.update adapter.view.entities entityId (some entity)
          rows := Function.update adapter.view.rows entityId
            (AdapterView.rowsAfter asString (adapter.view.entities entityId) (some entity)
              (adapter.view.rows entityId)) } ∧
      Indexed { adapter with
        entityStore := adapter.entityStore.write asString entityId entity } := by
  have types := setAt_updateTypeIndexOnSet indexed.types indexed.typesNodup under
    fun row held => (orderly.rows entityId row held).2
  constructor
  · have rows := AdapterView.rows_applyIndexDelta asString adapter.entityStore.index
      (adapter.entityStore.entities.get? entityId) (some entity)
      (fun row held => (orderly.rows entityId row held).1) fun row held => by
        cases held
        exact under
    simp only [view, MemoryEntityStore.write, MemoryEntityStore.updateIndex, OrderedMap.get?_set,
      ← Function.update_apply, rows]
  · exact { indexed with
      types := fun type => (types type).1
      typesNodup := fun type => (types type).2 }

theorem replay_spec (orderly : adapter.view.Orderly) (entityId : String) :
    (adapter.replay asString entityId).view = adapter.view.replay asString entityId ∧
      Indexed (adapter.replay asString entityId) := by
  unfold MemoryAdapter.replay AdapterView.replay
  by_cases dirty : adapter.dirtyTracker.isDirty entityId = true
  · rw [if_pos dirty, if_pos (show (adapter.view.dirty entityId).isSome = true from dirty)]
    cases found : materialize adapter.actionLog entityId with
    | none =>
        rw [show materialize adapter.view.log entityId = none from found]
        rw [materialize] at found
        simp only [found]
        exact ⟨trivial, indexed⟩
    | some entity =>
        rw [show materialize adapter.view.log entityId = some entity from found]
        have under := (materialize_spec (· ≠ "") orderly.types entity found).1
        rw [materialize] at found
        simp only [found]
        rcases write_spec asString indexed orderly under with ⟨written, writtenIndexed⟩
        rcases clear_spec _ writtenIndexed entityId (orderly.marks entityId) with
          ⟨cleared, clearedIndexed⟩
        exact ⟨cleared.trans (by rw [written]; rfl), clearedIndexed⟩
  · rw [if_neg dirty, if_neg (show ¬ (adapter.view.dirty entityId).isSome = true from dirty)]
    exact ⟨rfl, indexed⟩

theorem replayAll_spec (orderly : adapter.view.Orderly) (entityIds : List String) :
    (entityIds.foldl (replay asString) adapter).view = adapter.view.replayAll asString entityIds ∧
      Indexed (entityIds.foldl (replay asString) adapter) := by
  induction entityIds generalizing adapter with
  | nil => exact ⟨rfl, indexed⟩
  | cons id rest induction =>
      rcases replay_spec asString indexed orderly id with ⟨same, replayed⟩
      rcases induction replayed (same ▸ orderly.replay asString id) with ⟨later, all⟩
      exact ⟨later.trans (by rw [same]; rfl), all⟩

end

end MemoryAdapter

end Ebb.Storage
