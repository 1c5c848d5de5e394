import Ebb.Core.WireFields
import Ebb.Storage.IndexedDBAdapter
import Ebb.Storage.MemoryAdapter

namespace Ebb.Storage

/-! The adapter in memory and the one over IndexedDB under one run of calls. Their views stay
equal, and so do the results of the next call. -/

structure AdapterPair (V : Type) where
  memory : MemoryAdapter V
  indexedDB : EbbDB V

/-! ## The calls on which they agree -/

def AdapterCall.marks : AdapterCall V → List (String × String)
  | .append action => action.updates.map fun update => (update.subjectId, update.subjectType)
  | .appendMany actions => (actions.flatMap Action.updates).map fun update =>
      (update.subjectId, update.subjectType)
  | .mark entityId entityType => [(entityId, entityType)]
  | _ => []

/-- The ids and types under which a call reads the records of the adapter in memory. -/
def AdapterCall.reads : AdapterCall V → List String
  | .get id => [id]
  | .query type => [type]
  | .isDirty entityId => [entityId]
  | .getDirtyForType entityType => [entityType]
  | .clearDirty entityId => [entityId]
  | _ => []

/-- Deliveries repeat the header of the Action they are of, a tail starts in the log, no type is
empty, and no name is one that every object inherits. -/
structure AdapterPair.Fits (pair : AdapterPair V) (call : AdapterCall V) : Prop where
  headers : match call with
    | .append action => pair.memory.actionLog.Admits action
    | .appendMany actions => pair.memory.actionLog.AdmitsAll actions
    | .readTail afterPosition => 0 ≤ afterPosition
    | _ => True
  marks : ∀ mark ∈ call.marks, mark.2 ≠ "" ∧ mark.1 ∉ objectPrototype ∧
    mark.2 ∉ objectPrototype
  reads : ∀ name ∈ call.reads, name ∉ objectPrototype

instance (pair : AdapterPair V) (call : AdapterCall V) : Decidable (pair.Fits call) :=
  have headers : Decidable (match call with
      | .append action => pair.memory.actionLog.Admits action
      | .appendMany actions => pair.memory.actionLog.AdmitsAll actions
      | .readTail afterPosition => 0 ≤ afterPosition
      | _ => True) := by
    cases call with
    | append action => exact inferInstanceAs (Decidable (ActionLog.Admits _ action))
    | appendMany actions => exact inferInstanceAs (Decidable (ActionLog.AdmitsAll _ actions))
    | readTail afterPosition => exact inferInstanceAs (Decidable (0 ≤ afterPosition))
    | _ => exact .isTrue trivial
  decidable_of_iff (_ ∧ _ ∧ _)
    ⟨fun ⟨headers, marks, reads⟩ => ⟨headers, marks, reads⟩,
      fun ⟨headers, marks, reads⟩ => ⟨headers, marks, reads⟩⟩

namespace AdapterPair

variable (keyOrder : String → String → Bool) (asString : V → Option String)

def next (pair : AdapterPair V) (call : AdapterCall V) : AdapterPair V where
  memory := (pair.memory.call asString call).1
  indexedDB := (pair.indexedDB.call keyOrder asString call).1

/-- The results of the next call are the same. -/
def Replies (pair : AdapterPair V) (call : AdapterCall V) : Prop :=
  (pair.memory.call asString call).2.Same (pair.indexedDB.call keyOrder asString call).2

def machine : Machine (AdapterPair V) (AdapterCall V) where
  initial := ⟨.create, .create⟩
  step := fun pair call => some (pair.next keyOrder asString call)

/-! ## One view -/

structure Agree (pair : AdapterPair V) : Prop where
  view : pair.memory.view = pair.indexedDB.view
  indexed : pair.memory.Indexed
  numbered : pair.indexedDB.Numbered
  orderly : pair.memory.view.Orderly

theorem agree_initial : Agree (machine keyOrder asString : Machine (AdapterPair V) _).initial where
  view := rfl
  indexed := MemoryAdapter.indexed_create
  numbered := EbbDB.numbered_create
  orderly := .empty

variable {pair : AdapterPair V}

section

variable (agree : pair.Agree)
include agree

theorem Agree.mark (entityId : String) {entityType : String} (named : entityType ≠ "") :
    Agree ⟨{ pair.memory with dirtyTracker := pair.memory.dirtyTracker.mark entityId entityType },
      pair.indexedDB.mark entityId entityType⟩ := by
  rcases MemoryAdapter.mark_spec pair.memory agree.indexed entityId entityType with
    ⟨memory, indexed⟩
  rcases EbbDB.mark_spec pair.indexedDB agree.numbered entityId entityType with
    ⟨indexedDB, numbered⟩
  refine ⟨?_, indexed, numbered, ?_⟩
  · rw [memory, indexedDB, agree.view]
  · rw [memory]
    exact agree.orderly.mark named

theorem Agree.markAll {updates : List (Update V)}
    (named : ∀ update ∈ updates, update.subjectType ≠ "") :
    Agree ⟨pair.memory.markAll updates, pair.indexedDB.markAll updates⟩ := by
  induction updates generalizing pair with
  | nil => exact agree
  | cons update rest induction =>
      have parts := List.forall_mem_cons.mp named
      exact induction (agree.mark update.subjectId parts.1) parts.2

theorem Agree.replayAll {left right : List String} (perm : left.Perm right) :
    Agree ⟨left.foldl (MemoryAdapter.replay asString) pair.memory,
      right.foldl (EbbDB.replay keyOrder asString) pair.indexedDB⟩ := by
  rcases MemoryAdapter.replayAll_spec asString agree.indexed agree.orderly left with
    ⟨memory, indexed⟩
  rcases EbbDB.replayAll_spec keyOrder asString agree.numbered (agree.view ▸ agree.orderly)
    right with ⟨indexedDB, numbered⟩
  refine ⟨?_, indexed, numbered, ?_⟩
  · rw [memory, indexedDB, ← agree.view, AdapterView.replayAll_of_perm asString _ perm]
  · rw [memory]
    exact agree.orderly.replayAll asString left

theorem Agree.materializeDirtyType (type : String) :
    Agree ⟨pair.memory.materializeDirtyType asString type,
      pair.indexedDB.materializeDirtyType keyOrder asString type⟩ := by
  apply agree.replayAll keyOrder asString
  apply (List.perm_ext_iff_of_nodup (agree.indexed.dirtyNodup type)
    (EbbDB.nodup_getDirtyForType keyOrder pair.indexedDB type)).mpr
  intro id
  rw [EbbDB.mem_getDirtyForType, ← agree.view]
  exact agree.indexed.dirty type id

theorem Agree.mem_rowsAt (key : String) (entry : String × String) :
    entry ∈ pair.memory.rowsAt key ↔ entry ∈ pair.indexedDB.rowsAt key := by
  rw [MemoryAdapter.rowsAt, EbbDB.rowsAt, ReverseIndex.mem_rows, ReverseIndex.mem_rows,
    show ∀ key id, pair.memory.entityStore.index.row? key id = pair.memory.view.rows id key from
      fun _ _ => rfl, agree.view]
  rfl

theorem Agree.mem_rowsAt_snd (key id : String) :
    id ∈ (pair.memory.rowsAt key).map Prod.snd ↔ id ∈ (pair.indexedDB.rowsAt key).map Prod.snd := by
  simp only [List.mem_map, agree.mem_rowsAt]

theorem Agree.mem_query (type : String) (entity : Entity V) :
    entity ∈ (setAt pair.memory.entityStore.typeIndex type).filterMap
        (fun id => pair.memory.entityStore.entities.get? id) ↔
      entity ∈ pair.indexedDB.entitiesOfType keyOrder type := by
  rw [EbbDB.mem_entitiesOfType, ← agree.view, List.mem_filterMap]
  constructor
  · rintro ⟨id, filed, held⟩
    rcases (agree.indexed.types type id).mp filed with ⟨row, found, typed⟩
    rw [held] at found
    cases found
    exact ⟨⟨id, held⟩, typed⟩
  · rintro ⟨⟨id, held⟩, typed⟩
    exact ⟨id, (agree.indexed.types type id).mpr ⟨entity, held, typed⟩, held⟩

/-! ## One call -/

theorem Agree.append {action : Action V} (admits : pair.memory.actionLog.Admits action)
    (named : ∀ update ∈ action.updates, update.subjectType ≠ "") :
    Agree ⟨(pair.memory.append action).1,
        (pair.indexedDB.appendInto action).1.markAll action.updates⟩ ∧
      (pair.memory.append action).2 = (pair.indexedDB.appendInto action).2 := by
  have log : pair.memory.actionLog = pair.indexedDB.view.log :=
    congrArg AdapterView.log agree.view
  rcases EbbDB.appendInto_spec agree.numbered (log ▸ admits) with ⟨appended, reply, numbered⟩
  have logged : Agree ⟨{ pair.memory with actionLog := (pair.memory.actionLog.append action).1 },
      (pair.indexedDB.appendInto action).1⟩ := by
    refine ⟨?_, ⟨agree.indexed.types, agree.indexed.typesNodup, agree.indexed.dirty,
      agree.indexed.dirtyNodup⟩, numbered, agree.orderly.append admits named⟩
    rw [appended, ← agree.view]
    rfl
  exact ⟨logged.markAll named, by rw [reply, ← log]; rfl⟩

theorem Agree.appendMany {actions : List (Action V)}
    (admits : pair.memory.actionLog.AdmitsAll actions)
    (named : ∀ action ∈ actions, ∀ update ∈ action.updates, update.subjectType ≠ "") :
    Agree ⟨(pair.memory.appendMany actions).1,
        (pair.indexedDB.appendAll actions).1.markAll (actions.flatMap Action.updates)⟩ ∧
      (pair.memory.appendMany actions).2 = (pair.indexedDB.appendAll actions).2 := by
  have log : pair.memory.actionLog = pair.indexedDB.view.log :=
    congrArg AdapterView.log agree.view
  rcases EbbDB.appendAll_spec agree.numbered (log ▸ admits) with ⟨appended, reply, numbered⟩
  have logged : Agree ⟨{ pair.memory with
        actionLog := (pair.memory.actionLog.appendAll actions).1 },
      (pair.indexedDB.appendAll actions).1⟩ := by
    refine ⟨?_, ⟨agree.indexed.types, agree.indexed.typesNodup, agree.indexed.dirty,
      agree.indexed.dirtyNodup⟩, numbered, agree.orderly.appendAll admits named⟩
    rw [appended, ← agree.view]
    rfl
  refine ⟨logged.markAll fun update member => ?_, by rw [reply, ← log]; rfl⟩
  rcases List.mem_flatMap.mp member with ⟨action, listed, held⟩
  exact named action listed update held

theorem Agree.readTail {afterPosition : Int} (within : 0 ≤ afterPosition) :
    pair.memory.readTail afterPosition = pair.indexedDB.readTail keyOrder afterPosition := by
  rcases Int.eq_ofNat_of_zero_le within with ⟨position, rfl⟩
  rw [EbbDB.readTail_eq keyOrder agree.numbered, ← agree.view, MemoryAdapter.readTail, sliceFrom,
    if_neg (Int.not_lt.mpr within), Int.toNat_natCast]
  rfl

theorem Agree.clearDirty (entityId : String) :
    Agree ⟨{ pair.memory with dirtyTracker := pair.memory.dirtyTracker.clear entityId },
      pair.indexedDB.clearDirty entityId⟩ := by
  rcases MemoryAdapter.clear_spec pair.memory agree.indexed entityId
    (agree.orderly.marks entityId) with ⟨memory, indexed⟩
  rcases EbbDB.clearDirty_spec pair.indexedDB agree.numbered entityId with ⟨indexedDB, numbered⟩
  refine ⟨?_, indexed, numbered, ?_⟩
  · rw [memory, indexedDB, agree.view]
  · rw [memory]
    exact agree.orderly.unmark entityId

theorem Agree.clearAllDirty :
    Agree ⟨{ pair.memory with dirtyTracker := .empty },
      { pair.indexedDB with dirty := .empty }⟩ where
  view := by
    have view := agree.view
    simp only [MemoryAdapter.view, EbbDB.view, AdapterView.mk.injEq] at view ⊢
    exact ⟨view.1, view.2.1, rfl, view.2.2.2⟩
  indexed := { agree.indexed with
    dirty := (MemoryAdapter.indexed_create : (.create : MemoryAdapter V).Indexed).dirty
    dirtyNodup := fun _ => List.nodup_nil }
  numbered := ⟨agree.numbered.keys, agree.numbered.positions, agree.numbered.sequence⟩
  orderly := { agree.orderly with marks := nofun }

theorem Agree.call {call : AdapterCall V} (fits : pair.Fits call) :
    pair.Replies keyOrder asString call ∧ (pair.next keyOrder asString call).Agree := by
  have entity : ∀ {pair : AdapterPair V}, pair.Agree → ∀ id,
      pair.memory.entityStore.entities.get? id = pair.indexedDB.entities.get? id :=
    fun agree id => congrFun (congrArg AdapterView.entities agree.view) id
  have dirty : ∀ id, pair.memory.dirtyTracker.entities.get? id = pair.indexedDB.dirty.get? id :=
    fun id => congrFun (congrArg AdapterView.dirty agree.view) id
  have log : pair.memory.actionLog = pair.indexedDB.view.log :=
    congrArg AdapterView.log agree.view
  cases call with
  | append action =>
      have named : ∀ update ∈ action.updates, update.subjectType ≠ "" := fun update member =>
        (fits.marks _ (List.mem_map_of_mem member)).1
      rcases agree.append fits.headers named with ⟨appended, reply⟩
      exact ⟨congrArg AdapterReply.logged reply, appended⟩
  | appendMany actions =>
      have named : ∀ action ∈ actions, ∀ update ∈ action.updates, update.subjectType ≠ "" :=
        fun action listed update member => (fits.marks _ (List.mem_map_of_mem
          (List.mem_flatMap.mpr ⟨action, listed, member⟩))).1
      rcases agree.appendMany fits.headers named with ⟨appended, reply⟩
      exact ⟨congrArg AdapterReply.loggedMany reply, appended⟩
  | readTail afterPosition =>
      exact ⟨congrArg AdapterReply.tail (agree.readTail keyOrder fits.headers), agree⟩
  | lastPosition =>
      refine ⟨congrArg AdapterReply.position ?_, agree⟩
      rw [agree.numbered.sequence, log]
      exact List.length_map _
  | getAll =>
      refine ⟨fun action => ?_, agree⟩
      rw [EbbDB.mem_getAll, log]
  | getForEntity entityId =>
      refine ⟨congrArg AdapterReply.entityActions ?_, agree⟩
      rw [EbbDB.getForEntity_eq keyOrder agree.numbered (agree.view ▸ agree.orderly.gsns), log]
  | get id =>
      have replayed := agree.replayAll keyOrder asString (List.Perm.refl [id])
      exact ⟨congrArg AdapterReply.entity (entity replayed id), replayed⟩
  | query type =>
      have replayed := agree.materializeDirtyType keyOrder asString type
      exact ⟨replayed.mem_query keyOrder type, replayed⟩
  | queryByRelationship as type targetId =>
      have replayed := agree.materializeDirtyType keyOrder asString relationshipEntityType
      exact ⟨replayed.mem_rowsAt_snd _, replayed⟩
  | queryByRelationshipSource as type sourceId =>
      have replayed := agree.materializeDirtyType keyOrder asString relationshipEntityType
      exact ⟨replayed.mem_rowsAt _, replayed⟩
  | queryByMembership groupId =>
      have replayed := agree.materializeDirtyType keyOrder asString membershipEntityType
      exact ⟨replayed.mem_rowsAt_snd _, replayed⟩
  | queryByMembershipEntity entityId =>
      have replayed := agree.materializeDirtyType keyOrder asString membershipEntityType
      exact ⟨replayed.mem_rowsAt _, replayed⟩
  | mark entityId entityType =>
      exact ⟨rfl, agree.mark entityId (fits.marks _ List.mem_cons_self).1⟩
  | isDirty entityId =>
      refine ⟨congrArg AdapterReply.dirty ?_, agree⟩
      rw [EbbDB.isDirty, ← dirty]
      rfl
  | getDirtyForType entityType =>
      refine ⟨fun id => ?_, agree⟩
      rw [EbbDB.mem_getDirtyForType, ← agree.view]
      exact agree.indexed.dirty entityType id
  | clearDirty entityId => exact ⟨rfl, agree.clearDirty entityId⟩
  | clearAllDirty => exact ⟨rfl, agree.clearAllDirty⟩
  | clear => exact ⟨rfl, agree_initial keyOrder asString⟩
  | reset => exact ⟨rfl, agree_initial keyOrder asString⟩

end

/-! ## Runs -/

/-- Behind calls that fit, one more that fits has equal results. -/
theorem replies_of_run {calls : List (AdapterCall V)} {call : AdapterCall V}
    (reached : (machine keyOrder asString).run (machine keyOrder asString).initial calls =
      some pair)
    (meets : (machine keyOrder asString).Meets Fits (machine keyOrder asString).initial
      (calls ++ [call])) :
    pair.Replies keyOrder asString call := by
  rcases (Machine.meets_append reached).mp meets with ⟨before, here, _⟩
  have agree : pair.Agree := by
    refine Machine.run_preserves ?_ (agree_initial keyOrder asString) before reached
    rintro state event next agree fits ⟨⟩
    exact (agree.call keyOrder asString fits).2
  exact (agree.call keyOrder asString here).1

/-- A delivery of one Action, under the header that it comes with. -/
def noteDelivery (gsn : Nat) (updateId : String) : Action String where
  id := "act_1"
  actorId := "a_1"
  hlc := gsn
  gsn
  updates := [{
    id := updateId
    subjectId := "note_1"
    subjectType := "note"
    method := .put
    data := some [] }]

def byCodeUnits (left right : String) : Bool := decide (left ≤ right)

def redeliveries : List (AdapterCall String) :=
  [.append (noteDelivery 1 "upd_1"), .get "note_1", .append (noteDelivery 1 "upd_2")]

theorem replies_of_run_redelivered :
    ∃ pair, (machine byCodeUnits some).run (machine byCodeUnits some).initial redeliveries =
        some pair ∧
      pair.Replies byCodeUnits some (.query "note") := by
  refine ⟨_, rfl, ?_⟩
  exact @replies_of_run String byCodeUnits some _ redeliveries (.query "note") rfl (by decide)

/-- In memory a redelivered Action keeps the header of its first delivery, in IndexedDB it has that
of its last. -/
theorem redelivered_header_answered_apart :
    ∃ pair, (machine byCodeUnits some).run (machine byCodeUnits some).initial
        [.append (noteDelivery 1 "upd_1")] = some pair ∧
      ¬ pair.Replies byCodeUnits some (.append (noteDelivery 2 "upd_2")) := by
  refine ⟨_, rfl, fun same => ?_⟩
  have entry := AdapterReply.logged.inj same
  have gsn := congrArg (fun logged => logged.action.gsn) entry
  exact absurd gsn (by decide)

end AdapterPair

end Ebb.Storage
