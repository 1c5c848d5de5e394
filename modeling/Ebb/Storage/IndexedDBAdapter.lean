import Ebb.Storage.StorageAdapter

namespace Ebb.Storage

/-! The adapter over IndexedDB (`packages/storage/src/indexeddb`): its object stores, and what each
call does to them when no other runs. Rows that are read without an index come in the order of
their keys, those of an index in the order of the index first. -/

structure StoredAction (V : Type) where
  action : Action V
  subjectIds : List String
  position : Nat

structure EbbDB (V : Type) where
  actions : OrderedMap String (StoredAction V)
  /-- The append cursor. -/
  sequence : Option Nat
  entities : OrderedMap String (Entity V)
  relationships : ReverseIndex
  dirty : OrderedMap String String

def inKeyOrder (keyOrder : String → String → Bool) (store : OrderedMap String α) :
    List (String × α) :=
  store.entries.insertionSort fun left right => keyOrder left.1 right.1

def collectSubjectIds (action : Action V) : List String :=
  (action.updates.map Update.subjectId).eraseDups

namespace EbbDB

variable (keyOrder : String → String → Bool) (asString : V → Option String)

def create : EbbDB V where
  actions := .empty
  sequence := some 0
  entities := .empty
  relationships := .empty
  dirty := .empty

/-! ## The log -/

/-- Append one Action in a transaction. A known Action takes the header of the later delivery. -/
def appendInto (db : EbbDB V) (action : Action V) : EbbDB V × LoggedAction V :=
  let existing := db.actions.get? action.id
  let position := match existing with
    | none => db.sequence.getD 0 + 1
    | some stored => stored.position
  let merged := match existing with
    | none => action
    | some stored =>
        { action with updates := mergeActionUpdates stored.action.updates action.updates }
  let known := match existing with
    | none => []
    | some stored => stored.action.updates
  ({ db with
      actions := db.actions.set action.id
        { action := merged, subjectIds := collectSubjectIds merged, position }
      sequence := if existing.isNone then some position else db.sequence },
    { action := merged, position, added := addedUpdates known action.updates })

def appendAll (db : EbbDB V) : List (Action V) → EbbDB V × List (LoggedAction V)
  | [] => (db, [])
  | action :: rest =>
      let appended := db.appendInto action
      let remaining := appendAll appended.1 rest
      (remaining.1, appended.2 :: remaining.2)

/-- The `position` index from a bound on, which is left out. -/
def readTail (db : EbbDB V) (afterPosition : Int) : List (TailEntry V) :=
  (sortBy StoredAction.position (((inKeyOrder keyOrder db.actions).map Prod.snd).filter
    fun stored => afterPosition < stored.position)).map fun stored =>
      { action := stored.action, position := stored.position, added := stored.action.updates }

def getAll (db : EbbDB V) : List (Action V) :=
  (inKeyOrder keyOrder db.actions).map fun entry => entry.2.action

/-- The `subject_id` index at an entity. -/
def getForEntity (db : EbbDB V) (entityId : String) : List (Action V) :=
  sortBy Action.gsn ((((inKeyOrder keyOrder db.actions).map Prod.snd).filter
    fun stored => entityId ∈ stored.subjectIds).map StoredAction.action)

def mark (db : EbbDB V) (entityId entityType : String) : EbbDB V :=
  if (db.dirty.get? entityId).isSome then db
  else { db with dirty := db.dirty.set entityId entityType }

def markAll (db : EbbDB V) (updates : List (Update V)) : EbbDB V :=
  updates.foldl (fun db update => db.mark update.subjectId update.subjectType) db

def isDirty (db : EbbDB V) (entityId : String) : Bool := (db.dirty.get? entityId).isSome

/-- The `entityType` index at a type. -/
def getDirtyForType (db : EbbDB V) (entityType : String) : List String :=
  ((inKeyOrder keyOrder db.dirty).filter fun entry => entry.2 = entityType).map Prod.fst

def clearDirty (db : EbbDB V) (entityId : String) : EbbDB V :=
  { db with dirty := db.dirty.erase entityId }

/-! ## The entities -/

/-- Reverse then forward, each entry read, changed and written back. -/
def updateIndex (db : EbbDB V) (previous next : Option (Entity V)) : EbbDB V :=
  { db with
    relationships := ReverseIndex.applyIndexDelta
      (ReverseIndex.applyIndexDelta db.relationships
        (ReverseIndex.indexDelta (indexEntryFor asString) previous next))
      (ReverseIndex.indexDelta (forwardIndexEntryFor asString) previous next) }

def replay (db : EbbDB V) (entityId : String) : EbbDB V :=
  if db.isDirty entityId then
    match Storage.replay (db.getForEntity keyOrder entityId) entityId with
    | none => db
    | some entity =>
        let previous := db.entities.get? entityId
        ({ db with entities := db.entities.set entity.id entity }.updateIndex asString previous
          (some entity)).clearDirty entityId
  else db

def materializeDirtyType (db : EbbDB V) (entityType : String) : EbbDB V :=
  (db.getDirtyForType keyOrder entityType).foldl (replay keyOrder asString) db

/-- The `type` index at a type. -/
def entitiesOfType (db : EbbDB V) (type : String) : List (Entity V) :=
  ((inKeyOrder keyOrder db.entities).map Prod.snd).filter fun entity => entity.type = type

def rowsAt (db : EbbDB V) (key : String) : List (String × String) :=
  ((db.relationships.get? key).getD .empty).entries

def clear (db : EbbDB V) : EbbDB V :=
  { db with
    actions := .empty
    sequence := some 0
    dirty := .empty
    relationships := .empty
    entities := .empty }

def call (db : EbbDB V) : AdapterCall V → EbbDB V × AdapterReply V
  | .append action =>
      let appended := db.appendInto action
      (appended.1.markAll action.updates, .logged appended.2)
  | .appendMany actions =>
      let appended := db.appendAll actions
      (appended.1.markAll (actions.flatMap Action.updates), .loggedMany appended.2)
  | .readTail afterPosition => (db, .tail (db.readTail keyOrder afterPosition))
  | .lastPosition => (db, .position (db.sequence.getD 0))
  | .getAll => (db, .allActions (db.getAll keyOrder))
  | .getForEntity entityId => (db, .entityActions (db.getForEntity keyOrder entityId))
  | .get id =>
      let db := db.replay keyOrder asString id
      (db, .entity (db.entities.get? id))
  | .query type =>
      let db := db.materializeDirtyType keyOrder asString type
      (db, .entities (db.entitiesOfType keyOrder type))
  | .queryByRelationship as type targetId =>
      let db := db.materializeDirtyType keyOrder asString relationshipEntityType
      (db, .ids ((db.rowsAt (reverseIndexKey as type targetId)).map Prod.snd))
  | .queryByRelationshipSource as type sourceId =>
      let db := db.materializeDirtyType keyOrder asString relationshipEntityType
      (db, .links (db.rowsAt (forwardIndexKey as type sourceId)))
  | .queryByMembership groupId =>
      let db := db.materializeDirtyType keyOrder asString membershipEntityType
      (db, .ids ((db.rowsAt (membershipIndexKey groupId)).map Prod.snd))
  | .queryByMembershipEntity entityId =>
      let db := db.materializeDirtyType keyOrder asString membershipEntityType
      (db, .links (db.rowsAt (forwardMembershipIndexKey entityId)))
  | .mark entityId entityType => (db.mark entityId entityType, .done)
  | .isDirty entityId => (db, .dirty (db.isDirty entityId))
  | .getDirtyForType entityType => (db, .ids (db.getDirtyForType keyOrder entityType))
  | .clearDirty entityId => (db.clearDirty entityId, .done)
  | .clearAllDirty => ({ db with dirty := .empty }, .done)
  | .clear => (db.clear, .done)
  | .reset => (db.clear, .done)

def logEntries (db : EbbDB V) : ActionLog V := db.actions.entries.map fun entry => entry.2.action

def view (db : EbbDB V) : AdapterView V where
  log := db.logEntries
  entities := fun id => db.entities.get? id
  dirty := fun id => db.dirty.get? id
  rows := fun rowId key => db.relationships.row? key rowId

/-- What is stored beside an Action. -/
structure Numbered (db : EbbDB V) : Prop where
  keys : ∀ entry ∈ db.actions.entries, entry.1 = entry.2.action.id ∧
    entry.2.subjectIds = collectSubjectIds entry.2.action
  positions : ∀ index entry, db.actions.entries[index]? = some entry →
    entry.2.position = index + 1
  sequence : db.sequence.getD 0 = db.actions.entries.length

theorem numbered_create : Numbered (create : EbbDB V) where
  keys := nofun
  positions := nofun
  sequence := rfl

/-! ### The log -/

def merged (stored : StoredAction V) (action : Action V) : StoredAction V where
  action := { action with updates := mergeActionUpdates stored.action.updates action.updates }
  subjectIds := collectSubjectIds
    { action with updates := mergeActionUpdates stored.action.updates action.updates }
  position := stored.position

variable {db : EbbDB V} {action : Action V} {stored : StoredAction V}

theorem appendInto_of_new (found : db.actions.get? action.id = none) :
    db.appendInto action =
      ({ db with
          actions := db.actions.set action.id
            (.mk action (collectSubjectIds action) (db.sequence.getD 0 + 1))
          sequence := some (db.sequence.getD 0 + 1) },
        { action, position := db.sequence.getD 0 + 1, added := action.updates }) := by
  have added : addedUpdates [] action.updates = action.updates := by
    simp only [addedUpdates, List.map_nil, List.not_mem_nil, not_false_eq_true, decide_true,
      List.filter_true]
  simp only [appendInto, found, added, Option.isNone_none, if_true]

theorem appendInto_of_known (found : db.actions.get? action.id = some stored) :
    db.appendInto action =
      ({ db with actions := db.actions.set action.id (merged stored action) },
        { action := (merged stored action).action
          position := stored.position
          added := addedUpdates stored.action.updates action.updates }) := by
  simp only [appendInto, found, merged, Option.isNone_some, Bool.false_eq_true, if_false]

theorem Numbered.append_of_new (numbered : Numbered db) (found : db.actions.get? action.id = none)
    : Numbered (db.appendInto action).1 := by
  rw [appendInto_of_new found]
  have written := OrderedMap.entries_set_of_absent found
    (.mk action (collectSubjectIds action) (db.sequence.getD 0 + 1))
  constructor
  case keys =>
    intro entry member
    rw [written] at member
    rcases List.mem_append.mp member with old | here
    · exact numbered.keys entry old
    · rw [List.mem_singleton.mp here]
      exact ⟨rfl, rfl⟩
  case positions =>
    intro index entry found
    rw [written] at found
    by_cases old : index < db.actions.entries.length
    · rw [List.getElem?_append_left old] at found
      exact numbered.positions index entry found
    · rw [List.getElem?_append_right (Nat.le_of_not_lt old), List.getElem?_singleton] at found
      split at found
      · next last =>
          cases found
          have here : index = db.actions.entries.length := by omega
          rw [here, ← numbered.sequence]
      · cases found
  case sequence =>
    rw [written, List.length_append, ← numbered.sequence]
    rfl

theorem Numbered.append_of_known (numbered : Numbered db)
    (found : db.actions.get? action.id = some stored) :
    Numbered (db.appendInto action).1 := by
  rw [appendInto_of_known found]
  rcases OrderedMap.exists_split found with ⟨before, after, split, _, written⟩
  have entries := written (merged stored action)
  constructor
  case keys =>
    intro entry member
    rcases (db.actions.mem_entries_set _ _ _).mp member with rfl | ⟨_, old⟩
    · exact ⟨rfl, rfl⟩
    · exact numbered.keys entry old
  case positions =>
    intro index entry found
    rw [entries] at found
    have old := numbered.positions index
    rw [split] at old
    by_cases here : index = before.length
    · subst here
      rw [List.getElem?_append_right (Nat.le_refl _), Nat.sub_self, List.getElem?_cons_zero]
        at found old
      cases found
      exact old (action.id, stored) rfl
    · by_cases earlier : index < before.length
      · rw [List.getElem?_append_left earlier] at found old
        exact old entry found
      · obtain ⟨later, rest⟩ : ∃ later, index - before.length = later + 1 :=
          ⟨index - before.length - 1, by omega⟩
        rw [List.getElem?_append_right (Nat.le_of_not_lt earlier), rest,
          List.getElem?_cons_succ] at found old
        exact old entry found
  case sequence =>
    rw [entries, numbered.sequence, split]
    simp only [List.length_append, List.length_cons]

theorem appendInto_spec (numbered : Numbered db) (admits : db.view.log.Admits action) :
    (db.appendInto action).1.view = { db.view with log := (db.view.log.append action).1 } ∧
      (db.appendInto action).2 = (db.view.log.append action).2 ∧
        Numbered (db.appendInto action).1 := by
  have log : db.view.log = db.actions.entries.map fun entry => entry.2.action := rfl
  cases found : db.actions.get? action.id with
  | none =>
      have absent : ∀ stored ∈ db.view.log, ¬ (stored.id == action.id) = true := by
        intro stored member same
        rcases List.mem_map.mp member with ⟨entry, held, rfl⟩
        have key := (numbered.keys entry held).1.trans (beq_iff_eq.mp same)
        rw [(db.actions.get?_eq_some_iff action.id entry.2).mpr (key ▸ held)] at found
        cases found
      have new := ActionLog.append_of_new (List.find?_eq_none.mpr absent)
      refine ⟨?_, ?_, numbered.append_of_new found⟩
      · rw [new, appendInto_of_new found, log]
        simp only [view, logEntries, OrderedMap.entries_set_of_absent found, List.map_append,
          List.map_cons, List.map_nil]
      · rw [new, appendInto_of_new found, log, List.length_map, numbered.sequence]
  | some stored =>
      rcases OrderedMap.exists_split found with ⟨before, after, split, _, written⟩
      have keys := numbered.keys
      rw [split] at log keys
      have sameId : stored.action.id = action.id :=
        (keys (action.id, stored) (List.mem_append_right _ List.mem_cons_self)).1.symm
      have others : ∀ other ∈ (before.map fun entry => entry.2.action) ++
          (after.map fun entry => entry.2.action), other.id ≠ action.id := by
        intro other member
        rw [← List.map_append] at member
        rcases List.mem_map.mp member with ⟨entry, held, rfl⟩
        have nodup := db.actions.nodup
        rw [split, List.map_append, List.map_cons, List.nodup_middle, List.nodup_cons,
          ← List.map_append] at nodup
        have key := (keys entry (by
          rcases List.mem_append.mp held with earlier | later
          · exact List.mem_append_left _ earlier
          · exact List.mem_append_right _ (List.mem_cons_of_mem _ later))).1
        exact fun same => nodup.1 (List.mem_map.mpr ⟨entry, held, key.trans same⟩)
      rw [List.map_append, List.map_cons] at log
      have known := ActionLog.append_of_split sameId others
      rw [← log] at known
      have position : stored.position = before.length + 1 := by
        refine numbered.positions before.length (action.id, stored) ?_
        rw [split, List.getElem?_append_right (Nat.le_refl _), Nat.sub_self,
          List.getElem?_cons_zero]
      -- The later header is the one that is stored.
      have header : (merged stored action).action = { stored.action with
          updates := mergeActionUpdates stored.action.updates action.updates } := by
        have member : stored.action ∈ db.view.log :=
          log ▸ List.mem_append_right _ List.mem_cons_self
        rcases (admits stored.action member).1 sameId with ⟨actor, hlc, gsn⟩
        simp only [merged, actor, hlc, gsn, sameId]
      refine ⟨?_, ?_, numbered.append_of_known found⟩
      · rw [known, appendInto_of_known found]
        simp only [view, logEntries, written, List.map_append, List.map_cons, header]
      · rw [known, appendInto_of_known found, header, position, List.length_map]

theorem appendAll_spec (numbered : Numbered db) {actions : List (Action V)}
    (admits : db.view.log.AdmitsAll actions) :
    (db.appendAll actions).1.view =
        { db.view with log := (db.view.log.appendAll actions).1 } ∧
      (db.appendAll actions).2 = (db.view.log.appendAll actions).2 ∧
        Numbered (db.appendAll actions).1 := by
  induction actions generalizing db with
  | nil => exact ⟨rfl, rfl, numbered⟩
  | cons action rest induction =>
      rcases appendInto_spec numbered admits.1 with ⟨appended, reply, kept⟩
      have later := admits.2
      rw [← show (db.appendInto action).1.view.log = (db.view.log.append action).1 by
        rw [appended]] at later
      rcases induction kept later with ⟨remaining, replies, all⟩
      rw [appended] at remaining replies
      refine ⟨remaining, ?_, all⟩
      rw [appendAll, ActionLog.appendAll, reply, replies]

/-! ### Dirty marks and rows -/

theorem mark_spec (db : EbbDB V) (numbered : Numbered db) (entityId entityType : String) :
    (db.mark entityId entityType).view = db.view.mark entityId entityType ∧
      Numbered (db.mark entityId entityType) := by
  unfold EbbDB.mark AdapterView.mark
  by_cases known : (db.dirty.get? entityId).isSome = true
  · rw [if_pos known, if_pos (show (db.view.dirty entityId).isSome = true from known)]
    exact ⟨rfl, numbered⟩
  · rw [if_neg known, if_neg (show ¬ (db.view.dirty entityId).isSome = true from known)]
    refine ⟨?_, numbered.keys, numbered.positions, numbered.sequence⟩
    simp only [view, logEntries, OrderedMap.get?_set, ← Function.update_apply]

theorem clearDirty_spec (db : EbbDB V) (numbered : Numbered db) (entityId : String) :
    (db.clearDirty entityId).view = db.view.unmark entityId ∧
      Numbered (db.clearDirty entityId) := by
  refine ⟨?_, numbered.keys, numbered.positions, numbered.sequence⟩
  simp only [clearDirty, view, logEntries, OrderedMap.get?_erase, ← Function.update_apply]
  rfl

theorem perm_inKeyOrder (store : OrderedMap String α) :
    (inKeyOrder keyOrder store).Perm store.entries :=
  List.perm_insertionSort _ _

section

variable (numbered : Numbered db)
include numbered

theorem getForEntity_eq (gsns : (db.view.log.map Action.gsn).Nodup) (entityId : String) :
    db.getForEntity keyOrder entityId = db.view.log.getForEntity entityId := by
  have touched : (((db.actions.entries.map Prod.snd).filter fun stored =>
      entityId ∈ stored.subjectIds).map StoredAction.action) =
        db.view.log.filter fun action => action.touches entityId := by
    rw [show db.view.log = db.actions.entries.map fun entry => entry.2.action from rfl,
      List.filter_map, List.map_map, List.filter_map]
    refine congrArg _ (List.filter_congr fun entry member => ?_)
    rw [Function.comp_apply, Function.comp_apply, (numbered.keys entry member).2,
      collectSubjectIds, Action.touches, Bool.eq_iff_iff, decide_eq_true_eq, List.mem_eraseDups,
      List.mem_map, List.any_eq_true]
    simp only [beq_iff_eq]
  have same := (((perm_inKeyOrder keyOrder db.actions).map Prod.snd).filter fun stored =>
    decide (entityId ∈ stored.subjectIds)).map StoredAction.action
  rw [touched] at same
  refine @eq_of_perm _ Action.gsn _ _ (sortedBy_sortBy _) (sortedBy_sortBy _) ?_ ?_
  · exact (perm_sortBy _).trans (same.trans (perm_sortBy _).symm)
  · refine (perm_sortBy _).map Action.gsn |>.nodup_iff.mpr ?_
    exact gsns.sublist (List.filter_sublist.map Action.gsn)

theorem replay_spec (orderly : db.view.Orderly) (entityId : String) :
    (db.replay keyOrder asString entityId).view = db.view.replay asString entityId ∧
      Numbered (db.replay keyOrder asString entityId) := by
  unfold EbbDB.replay AdapterView.replay
  by_cases dirty : db.isDirty entityId = true
  · rw [if_pos dirty, if_pos (show (db.view.dirty entityId).isSome = true from dirty),
      getForEntity_eq keyOrder numbered orderly.gsns]
    cases found : materialize db.view.log entityId with
    | none =>
        rw [materialize] at found
        simp only [found]
        exact ⟨trivial, numbered⟩
    | some entity =>
        have under := (materialize_spec (· ≠ "") orderly.types entity found).1
        rw [materialize] at found
        simp only [found]
        refine ⟨?_, numbered.keys, numbered.positions, numbered.sequence⟩
        have rows := AdapterView.rows_applyIndexDelta asString db.relationships
          (db.entities.get? entityId) (some entity)
          (fun row held => (orderly.rows entityId row held).1) fun row held => by
            cases held
            exact under
        simp only [view, logEntries, clearDirty, updateIndex, under, OrderedMap.get?_set,
          OrderedMap.get?_erase, ← Function.update_apply, rows]
  · rw [if_neg dirty, if_neg (show ¬ (db.view.dirty entityId).isSome = true from dirty)]
    exact ⟨rfl, numbered⟩

theorem replayAll_spec (orderly : db.view.Orderly) (entityIds : List String) :
    (entityIds.foldl (replay keyOrder asString) db).view =
        db.view.replayAll asString entityIds ∧
      Numbered (entityIds.foldl (replay keyOrder asString) db) := by
  induction entityIds generalizing db with
  | nil => exact ⟨rfl, numbered⟩
  | cons id rest induction =>
      rcases replay_spec keyOrder asString numbered orderly id with ⟨same, replayed⟩
      rcases induction replayed (same ▸ orderly.replay asString id) with ⟨later, all⟩
      exact ⟨later.trans (by rw [same]; rfl), all⟩

/-! ### Reads -/

theorem stored_position {index : Nat}
    (found : (db.actions.entries.map Prod.snd)[index]? = some stored) :
    stored.position = index + 1 := by
  rw [List.getElem?_map] at found
  rcases Option.map_eq_some_iff.mp found with ⟨entry, held, rfl⟩
  exact numbered.positions index entry held

theorem filter_position (afterPosition : Nat) :
    ((db.actions.entries.map Prod.snd).filter fun stored =>
        (afterPosition : Int) < stored.position) =
      (db.actions.entries.map Prod.snd).drop afterPosition := by
  conv_lhs => rw [← List.take_append_drop afterPosition (db.actions.entries.map Prod.snd)]
  rw [List.filter_append, List.filter_eq_nil_iff.mpr, List.filter_eq_self.mpr, List.nil_append]
  · intro stored member
    rcases List.mem_iff_getElem?.mp member with ⟨offset, found⟩
    rw [List.getElem?_drop] at found
    have position := stored_position numbered found
    exact decide_eq_true (by omega)
  · intro stored member
    rcases List.mem_iff_getElem?.mp member with ⟨index, found⟩
    rw [List.getElem?_take] at found
    split at found
    · have position := stored_position numbered found
      simp only [decide_eq_true_eq]
      omega
    · cases found

theorem readTail_eq (afterPosition : Nat) :
    db.readTail keyOrder afterPosition =
      (db.view.log.drop afterPosition).mapIdx fun offset action =>
        { action, position := afterPosition + offset + 1, added := action.updates } := by
  have increasing : (db.actions.entries.map Prod.snd).Pairwise
      fun left right => left.position < right.position := by
    rw [List.pairwise_iff_getElem]
    intro left right leftWithin rightWithin before
    rw [stored_position numbered (List.getElem?_eq_getElem leftWithin),
      stored_position numbered (List.getElem?_eq_getElem rightWithin)]
    exact Nat.succ_lt_succ before
  have later := filter_position numbered afterPosition
  have ordered := increasing.filter fun stored => (afterPosition : Int) < stored.position
  have sorted : sortBy StoredAction.position (((inKeyOrder keyOrder db.actions).map
      Prod.snd).filter fun stored => (afterPosition : Int) < stored.position) =
        (db.actions.entries.map Prod.snd).drop afterPosition := by
    rw [← later]
    refine @eq_of_perm _ StoredAction.position _ _ (sortedBy_sortBy _)
      (ordered.imp Nat.le_of_lt) ?_ (List.pairwise_map.mpr (ordered.imp Nat.ne_of_lt))
    exact (perm_sortBy _).trans (((perm_inKeyOrder keyOrder db.actions).map Prod.snd).filter _)
  have log : db.view.log = (db.actions.entries.map Prod.snd).map StoredAction.action := by
    rw [List.map_map]
    rfl
  rw [readTail, sorted, log]
  apply List.ext_getElem?
  intro offset
  rw [List.getElem?_map, List.getElem?_drop, List.getElem?_mapIdx, List.getElem?_drop,
    @List.getElem?_map _ _ StoredAction.action, Option.map_map]
  refine Option.map_congr fun stored found => ?_
  have position := stored_position numbered found
  simp only [Function.comp_apply, position, Int.natCast_add, Int.natCast_one]

end

theorem mem_getAll : action ∈ db.getAll keyOrder ↔ action ∈ db.view.log :=
  ((perm_inKeyOrder keyOrder db.actions).map fun entry => entry.2.action).mem_iff

theorem mem_getDirtyForType {type id : String} :
    id ∈ db.getDirtyForType keyOrder type ↔ db.view.dirty id = some type := by
  rw [getDirtyForType, List.mem_map]
  simp only [List.mem_filter, decide_eq_true_eq, (perm_inKeyOrder keyOrder db.dirty).mem_iff]
  rw [show db.view.dirty id = db.dirty.get? id from rfl, OrderedMap.get?_eq_some_iff]
  constructor
  · rintro ⟨⟨_, _⟩, ⟨member, rfl⟩, rfl⟩
    exact member
  · exact fun member => ⟨(id, type), ⟨member, rfl⟩, rfl⟩

theorem nodup_getDirtyForType (db : EbbDB V) (type : String) :
    (db.getDirtyForType keyOrder type).Nodup :=
  ((perm_inKeyOrder keyOrder db.dirty).map Prod.fst).nodup_iff.mpr db.dirty.nodup
    |>.sublist (List.filter_sublist.map Prod.fst)

theorem mem_entitiesOfType {type : String} {entity : Entity V} :
    entity ∈ db.entitiesOfType keyOrder type ↔
      (∃ id, db.view.entities id = some entity) ∧ entity.type = type := by
  rw [entitiesOfType, List.mem_filter, decide_eq_true_eq, List.mem_map]
  simp only [(perm_inKeyOrder keyOrder db.entities).mem_iff]
  apply and_congr_left
  intro _
  constructor
  · rintro ⟨⟨id, _⟩, member, rfl⟩
    exact ⟨id, (db.entities.get?_eq_some_iff _ _).mpr member⟩
  · rintro ⟨id, held⟩
    exact ⟨(id, entity), (db.entities.get?_eq_some_iff _ _).mp held, rfl⟩

/-! ### What a transaction writes -/

theorem appendAll_beside (db : EbbDB V) (actions : List (Action V)) :
    (db.appendAll actions).1.entities = db.entities ∧
      (db.appendAll actions).1.dirty = db.dirty ∧
        (db.appendAll actions).1.relationships = db.relationships := by
  induction actions generalizing db with
  | nil => exact ⟨rfl, rfl, rfl⟩
  | cons action rest induction => exact induction (db.appendInto action).1

theorem mem_updates_appendAll {actions : List (Action V)} {entry : String × StoredAction V}
    (member : entry ∈ (db.appendAll actions).1.actions.entries) {update : Update V}
    (listed : update ∈ entry.2.action.updates) :
    (∃ earlier ∈ db.actions.entries, update ∈ earlier.2.action.updates) ∨
      update ∈ actions.flatMap Action.updates := by
  induction actions generalizing db with
  | nil => exact .inl ⟨entry, member, listed⟩
  | cons action rest induction =>
      rw [List.flatMap_cons, List.mem_append]
      rcases induction member with ⟨between, held, listed⟩ | later
      · cases found : db.actions.get? action.id with
        | none =>
            rw [appendInto_of_new found] at held
            rcases (db.actions.mem_entries_set _ _ _).mp held with rfl | ⟨_, old⟩
            · exact .inr (.inl listed)
            · exact .inl ⟨between, old, listed⟩
        | some stored =>
            rw [appendInto_of_known found] at held
            rcases (db.actions.mem_entries_set _ _ _).mp held with rfl | ⟨_, old⟩
            · rcases mem_mergeActionUpdates listed with old | new
              · exact .inl ⟨_, (db.actions.get?_eq_some_iff _ _).mp found, old⟩
              · exact .inr (.inl new)
            · exact .inl ⟨between, old, listed⟩
      · exact .inr (.inr later)

end EbbDB

end Ebb.Storage
