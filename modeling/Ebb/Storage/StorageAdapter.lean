import Ebb.Storage.Adjacency

namespace Ebb.Storage

/-! The interface the storage adapters share (`packages/storage/src/types`) and what an adapter
holds, whichever way it stores it: the log, the materialized rows, the dirty marks and the live
rows of the adjacency index. -/

/-! ## Calls and replies -/

inductive AdapterCall (V : Type) where
  | append (action : Action V)
  | appendMany (actions : List (Action V))
  | readTail (afterPosition : Int)
  | lastPosition
  | getAll
  | getForEntity (entityId : String)
  | get (id : String)
  | query (type : String)
  | queryByRelationship (as type targetId : String)
  | queryByRelationshipSource (as type sourceId : String)
  | queryByMembership (groupId : String)
  | queryByMembershipEntity (entityId : String)
  | mark (entityId entityType : String)
  | isDirty (entityId : String)
  | getDirtyForType (entityType : String)
  | clearDirty (entityId : String)
  | clearAllDirty
  | clear
  | reset

/-- One entry of a tail. Its position is computed from the position the caller gives. -/
structure TailEntry (V : Type) where
  action : Action V
  position : Int
  added : List (Update V)

inductive AdapterReply (V : Type) where
  | done
  | logged (entry : LoggedAction V)
  | loggedMany (entries : List (LoggedAction V))
  | tail (entries : List (TailEntry V))
  | position (position : Nat)
  | allActions (actions : List (Action V))
  | entityActions (actions : List (Action V))
  | entity (entity : Option (Entity V))
  | entities (entities : List (Entity V))
  | ids (ids : List String)
  | links (links : List (String × String))
  | dirty (dirty : Bool)

/-- Equal replies, those in no order of their own compared as sets. -/
def AdapterReply.Same : AdapterReply V → AdapterReply V → Prop
  | .allActions left, .allActions right => ∀ action, action ∈ left ↔ action ∈ right
  | .entities left, .entities right => ∀ entity, entity ∈ left ↔ entity ∈ right
  | .ids left, .ids right => ∀ id, id ∈ left ↔ id ∈ right
  | .links left, .links right => ∀ link, link ∈ left ↔ link ∈ right
  | left, right => left = right

/-! ## Deliveries to the log -/

namespace ActionLog

def appendAll (log : ActionLog V) : List (Action V) → ActionLog V × List (LoggedAction V)
  | [] => (log, [])
  | action :: rest =>
      let appended := log.append action
      let remaining := appendAll appended.1 rest
      (remaining.1, appended.2 :: remaining.2)

/-- The delivery has the header of the Action it is known as, and a GSN of its own. -/
def Admits (log : ActionLog V) (action : Action V) : Prop :=
  ∀ stored ∈ log, (stored.id = action.id → stored.actorId = action.actorId ∧
    stored.hlc = action.hlc ∧ stored.gsn = action.gsn) ∧
      (stored.id ≠ action.id → stored.gsn ≠ action.gsn)

/-- The Actions of a page are admitted one behind the other. -/
def AdmitsAll : ActionLog V → List (Action V) → Prop
  | _, [] => True
  | log, action :: rest => Admits log action ∧ AdmitsAll (log.append action).1 rest

instance (log : ActionLog V) (action : Action V) : Decidable (log.Admits action) :=
  inferInstanceAs (Decidable (∀ stored ∈ log, (stored.id = action.id →
    stored.actorId = action.actorId ∧ stored.hlc = action.hlc ∧ stored.gsn = action.gsn) ∧
      (stored.id ≠ action.id → stored.gsn ≠ action.gsn)))

instance decidableAdmitsAll : ∀ (log : ActionLog V) (actions : List (Action V)),
    Decidable (log.AdmitsAll actions)
  | _, [] => .isTrue trivial
  | log, action :: rest =>
      have := decidableAdmitsAll (log.append action).1 rest
      inferInstanceAs (Decidable (log.Admits action ∧ (log.append action).1.AdmitsAll rest))

end ActionLog

theorem mem_mergeActionUpdates {existing incoming : List (Update V)} {update : Update V}
    (member : update ∈ mergeActionUpdates existing incoming) :
    update ∈ existing ∨ update ∈ incoming := by
  rw [mergeActionUpdates] at member
  rcases List.mem_filterMap.mp member with ⟨id, _, found⟩
  rcases lookup_foldl_setEntry Update.id (fun update => update) found with
    ⟨copy, copied, _, rfl⟩ | earlier
  · exact .inr copied
  · rcases lookup_foldl_setEntry Update.id (fun update => update) earlier with
      ⟨stored, held, _, rfl⟩ | absent
    · exact .inl held
    · cases absent

structure AdapterView (V : Type) where
  log : ActionLog V
  entities : String → Option (Entity V)
  dirty : String → Option String
  /-- By row id, the values a row puts under the keys of the index. -/
  rows : String → String → Option String

/-! ## Rows of the log -/

theorem applyUpdate_spec {entity : Option (Entity V)} {update : Update V} {gsn : Nat}
    {hlc : HLCTimestamp} {id : String} {known : String → Prop}
    (subject : update.subjectId = id) (type : known update.subjectType)
    (before : ∀ row ∈ entity, row.id = id ∧ known row.type) :
    ∀ row ∈ applyUpdate entity update gsn hlc, row.id = id ∧ known row.type := by
  intro row found
  unfold applyUpdate at found
  cases entity with
  | none =>
      cases method : update.method with
      | put =>
          simp only [method] at found
          cases found
          exact ⟨subject, type⟩
      | patch =>
          simp only [method] at found
          cases found
      | delete =>
          simp only [method] at found
          cases found
  | some entity =>
      have kept := before entity rfl
      cases method : update.method with
      | put =>
          simp only [method] at found
          cases found
          exact ⟨subject, type⟩
      | patch =>
          simp only [method] at found
          split at found
          · cases found
            exact kept
          · cases found
            exact kept
      | delete =>
          simp only [method] at found
          cases found
          exact kept

theorem replay_named {actions : List (Action V)} {id : String} (known : String → Prop)
    (types : ∀ action ∈ actions, ∀ update ∈ action.updates, update.subjectId = id →
      known update.subjectType) :
    ∀ row ∈ replay actions id, row.id = id ∧ known row.type := by
  have general : ∀ (committed : List (CommittedUpdate V)) (entity : Option (Entity V)),
      (∀ entry ∈ committed, entry.update.subjectId = id ∧ known entry.update.subjectType) →
      (∀ row ∈ entity, row.id = id ∧ known row.type) →
        ∀ row ∈ committed.foldl applyCommitted entity, row.id = id ∧ known row.type := by
    intro committed
    induction committed with
    | nil => exact fun entity _ before => before
    | cons head rest induction =>
        intro entity all before
        have parts := List.forall_mem_cons.mp all
        exact induction _ parts.2 (applyUpdate_spec parts.1.1 parts.1.2 before)
  refine general _ none ?_ nofun
  intro entry member
  rcases List.mem_flatMap.mp member with ⟨action, listed, member⟩
  rcases List.mem_map.mp member with ⟨update, touched, rfl⟩
  rw [Action.updatesOf, List.mem_filter] at touched
  have subject := of_decide_eq_true touched.2
  exact ⟨subject, types action listed update touched.1 subject⟩

theorem materialize_spec {log : ActionLog V} {id : String} (known : String → Prop)
    (types : ∀ action ∈ log, ∀ update ∈ action.updates, known update.subjectType) :
    ∀ row ∈ materialize log id, row.id = id ∧ known row.type := by
  apply replay_named known
  intro action member update held _
  rw [ActionLog.getForEntity, mem_sortBy, List.mem_filter] at member
  exact types action member.1 update held

/-! ## The rows of the index -/

def rowAfter (delta : ReverseIndex.IndexDelta) (row : String → Option String) :
    String → Option String :=
  let removed := match delta.remove with
    | none => row
    | some entry => Function.update row entry.key none
  match delta.add with
  | none => removed
  | some entry => Function.update removed entry.key (some entry.value)

namespace ReverseIndex

theorem row?_applyIndexDelta {delta : IndexDelta} {id : String}
    (removed : ∀ entry ∈ delta.remove, entry.rowId = id)
    (added : ∀ entry ∈ delta.add, entry.rowId = id) (index : ReverseIndex) :
    (fun rowId key => row? (applyIndexDelta index delta) key rowId) =
      Function.update (fun rowId key => row? index key rowId) id
        (rowAfter delta fun key => row? index key id) := by
  rcases delta with ⟨remove, add⟩
  funext rowId key
  by_cases same : rowId = id
  · subst same
    rw [Function.update_self]
    cases remove with
    | none =>
        cases add with
        | none => rfl
        | some entry =>
            simp only [applyIndexDelta, rowAfter, row?_addEntry, added entry rfl, and_true,
              Function.update_apply]
    | some old =>
        cases add with
        | none =>
            simp only [applyIndexDelta, rowAfter, row?_removeEntry, removed old rfl, and_true,
              Function.update_apply]
        | some entry =>
            simp only [applyIndexDelta, rowAfter, row?_addEntry, row?_removeEntry,
              added entry rfl, removed old rfl, and_true, Function.update_apply]
  · rw [Function.update_of_ne same]
    cases remove with
    | none =>
        cases add with
        | none => rfl
        | some entry =>
            simp only [applyIndexDelta, row?_addEntry, added entry rfl, same, and_false, if_false]
    | some old =>
        cases add with
        | none =>
            simp only [applyIndexDelta, row?_removeEntry, removed old rfl, same, and_false,
              if_false]
        | some entry =>
            simp only [applyIndexDelta, row?_addEntry, row?_removeEntry, added entry rfl,
              removed old rfl, same, and_false, if_false]

theorem mem_rows (index : ReverseIndex) (key : String) (entry : String × String) :
    entry ∈ ((index.get? key).getD .empty).entries ↔ row? index key entry.1 = some entry.2 := by
  rw [row?]
  cases index.get? key with
  | none => exact iff_of_false List.not_mem_nil (by rintro ⟨⟩)
  | some rows => exact (rows.get?_eq_some_iff entry.1 entry.2).symm

end ReverseIndex

namespace AdapterView

variable (asString : V → Option String)

def rowsAfter (previous next : Option (Entity V)) (row : String → Option String) :
    String → Option String :=
  rowAfter (ReverseIndex.indexDelta (forwardIndexEntryFor asString) previous next)
    (rowAfter (ReverseIndex.indexDelta (indexEntryFor asString) previous next) row)

def empty : AdapterView V where
  log := []
  entities := fun _ => none
  dirty := fun _ => none
  rows := fun _ _ => none

def mark (view : AdapterView V) (entityId entityType : String) : AdapterView V :=
  if (view.dirty entityId).isSome then view
  else { view with dirty := Function.update view.dirty entityId (some entityType) }

def unmark (view : AdapterView V) (entityId : String) : AdapterView V :=
  { view with dirty := Function.update view.dirty entityId none }

def replay (view : AdapterView V) (entityId : String) : AdapterView V :=
  if (view.dirty entityId).isSome then
    match materialize view.log entityId with
    | none => view
    | some entity => { view with
        entities := Function.update view.entities entityId (some entity)
        rows := Function.update view.rows entityId
          (rowsAfter asString (view.entities entityId) (some entity) (view.rows entityId))
        dirty := Function.update view.dirty entityId none }
  else view

def replayAll (view : AdapterView V) (entityIds : List String) : AdapterView V :=
  entityIds.foldl (replay asString) view

theorem rows_applyIndexDelta (index : ReverseIndex) (previous next : Option (Entity V))
    {id : String} (previousNamed : ∀ row ∈ previous, row.id = id)
    (nextNamed : ∀ row ∈ next, row.id = id) :
    (fun rowId key => (ReverseIndex.applyIndexDelta (ReverseIndex.applyIndexDelta index
        (ReverseIndex.indexDelta (indexEntryFor asString) previous next))
        (ReverseIndex.indexDelta (forwardIndexEntryFor asString) previous next)).row? key rowId) =
      Function.update (fun rowId key => index.row? key rowId) id
        (rowsAfter asString previous next fun key => index.row? key id) := by
  have removed : ∀ entryFor : Entity V → Option IndexEntry,
      (∀ row entry, entryFor row = some entry → entry.rowId = row.id) →
        ∀ entry ∈ (ReverseIndex.indexDelta entryFor previous next).remove, entry.rowId = id := by
    intro entryFor named entry member
    rw [ReverseIndex.indexDelta] at member
    split at member
    · cases member
    · rcases Option.bind_eq_some_iff.mp member with ⟨row, held, found⟩
      rw [named row entry found, previousNamed row held]
  have added : ∀ entryFor : Entity V → Option IndexEntry,
      (∀ row entry, entryFor row = some entry → entry.rowId = row.id) →
        ∀ entry ∈ (ReverseIndex.indexDelta entryFor previous next).add, entry.rowId = id := by
    intro entryFor named entry member
    rw [ReverseIndex.indexDelta] at member
    split at member
    · cases member
    · rcases Option.bind_eq_some_iff.mp member with ⟨row, held, found⟩
      rw [named row entry found, nextNamed row held]
  have reverseNamed : ∀ (row : Entity V) entry, indexEntryFor asString row = some entry →
      entry.rowId = row.id := fun _ _ => rowId_indexEntryFor asString
  have forwardNamed : ∀ (row : Entity V) entry, forwardIndexEntryFor asString row = some entry →
      entry.rowId = row.id := fun _ _ => rowId_forwardIndexEntryFor asString
  have reverse := ReverseIndex.row?_applyIndexDelta (removed _ reverseNamed) (added _ reverseNamed)
    index
  have forward := ReverseIndex.row?_applyIndexDelta (removed _ forwardNamed)
    (added _ forwardNamed) (ReverseIndex.applyIndexDelta index
      (ReverseIndex.indexDelta (indexEntryFor asString) previous next))
  have here := congrFun reverse id
  rw [Function.update_self] at here
  rw [forward, reverse, Function.update_idem, here]
  rfl

/-! ### The order of replays -/

def put (view : AdapterView V) (id : String) (entity : Option (Entity V))
    (row : String → Option String) (mark : Option String) : AdapterView V :=
  { view with
    entities := Function.update view.entities id entity
    rows := Function.update view.rows id row
    dirty := Function.update view.dirty id mark }

theorem put_held (view : AdapterView V) (id : String) :
    view.put id (view.entities id) (view.rows id) (view.dirty id) = view := by
  simp only [put, Function.update_eq_self]

theorem put_comm (view : AdapterView V) {left right : String} (different : left ≠ right)
    (entity other : Option (Entity V)) (row otherRow : String → Option String)
    (mark otherMark : Option String) :
    (view.put left entity row mark).put right other otherRow otherMark =
      (view.put right other otherRow otherMark).put left entity row mark := by
  simp only [put, Function.update_comm different]

theorem replay_eq (view : AdapterView V) (id : String) :
    ∃ entity row mark, ∀ other : AdapterView V, other.log = view.log →
      other.entities id = view.entities id → other.rows id = view.rows id →
        other.dirty id = view.dirty id →
          other.replay asString id = other.put id entity row mark := by
  by_cases dirty : (view.dirty id).isSome = true
  · cases found : materialize view.log id with
    | none =>
        refine ⟨view.entities id, view.rows id, view.dirty id,
          fun other log entities rows same => ?_⟩
        rw [replay, same, if_pos dirty, log, found, ← entities, ← rows, ← same, put_held]
    | some entity =>
        refine ⟨some entity, rowsAfter asString (view.entities id) (some entity) (view.rows id),
          none, fun other log entities rows same => ?_⟩
        rw [replay, same, if_pos dirty, show materialize other.log id = some entity from log ▸ found,
          ← entities, ← rows]
        rfl
  · refine ⟨view.entities id, view.rows id, view.dirty id,
      fun other _ entities rows same => ?_⟩
    rw [replay, same, if_neg dirty, ← entities, ← rows, ← same, put_held]

theorem replay_comm (view : AdapterView V) (left right : String) :
    (view.replay asString left).replay asString right =
      (view.replay asString right).replay asString left := by
  by_cases same : left = right
  · rw [same]
  · rcases replay_eq asString view left with ⟨leftEntity, leftRow, leftMark, leftReplay⟩
    rcases replay_eq asString view right with ⟨rightEntity, rightRow, rightMark, rightReplay⟩
    rw [leftReplay view rfl rfl rfl rfl, rightReplay view rfl rfl rfl rfl,
      rightReplay (view.put left leftEntity leftRow leftMark) rfl
        (Function.update_of_ne (Ne.symm same) _ _) (Function.update_of_ne (Ne.symm same) _ _)
        (Function.update_of_ne (Ne.symm same) _ _),
      leftReplay (view.put right rightEntity rightRow rightMark) rfl
        (Function.update_of_ne same _ _) (Function.update_of_ne same _ _)
        (Function.update_of_ne same _ _), put_comm view same]

theorem replayAll_of_perm (view : AdapterView V) {left right : List String}
    (perm : left.Perm right) : view.replayAll asString left = view.replayAll asString right :=
  perm.foldl_eq' (fun _ _ _ _ other => replay_comm asString other _ _) view

/-! ### What every call keeps -/

/-- The Actions differ in ids and GSNs, no type that is named is empty, and every row stands under
its id. -/
structure Orderly (view : AdapterView V) : Prop where
  ids : (view.log.map Action.id).Nodup
  gsns : (view.log.map Action.gsn).Nodup
  types : ∀ action ∈ view.log, ∀ update ∈ action.updates, update.subjectType ≠ ""
  marks : ∀ id type, view.dirty id = some type → type ≠ ""
  rows : ∀ id, ∀ row ∈ view.entities id, row.id = id ∧ row.type ≠ ""

theorem Orderly.empty : Orderly (empty : AdapterView V) where
  ids := List.nodup_nil
  gsns := List.nodup_nil
  types := nofun
  marks := nofun
  rows := nofun

section

variable {view : AdapterView V} (orderly : view.Orderly)
include orderly

theorem Orderly.append {action : Action V} (admits : view.log.Admits action)
    (named : ∀ update ∈ action.updates, update.subjectType ≠ "") :
    ({ view with log := (view.log.append action).1 } : AdapterView V).Orderly := by
  cases known : view.log.find? fun stored => stored.id == action.id with
  | none =>
      have unlike : ∀ stored ∈ view.log, stored.id ≠ action.id := by
        simpa using List.find?_eq_none.mp known
      rw [ActionLog.append_of_new known]
      refine { orderly with ids := ?_, gsns := ?_, types := ?_ }
      · rw [List.map_append, List.map_singleton, ← List.concat_eq_append]
        refine orderly.ids.concat fun member => ?_
        rcases List.mem_map.mp member with ⟨stored, held, same⟩
        exact unlike stored held same
      · rw [List.map_append, List.map_singleton, ← List.concat_eq_append]
        refine orderly.gsns.concat fun member => ?_
        rcases List.mem_map.mp member with ⟨stored, held, same⟩
        exact (admits stored held).2 (unlike stored held) same
      · intro stored member
        rcases List.mem_append.mp member with held | new
        · exact orderly.types stored held
        · rw [List.mem_singleton.mp new]
          exact named
  | some existing =>
      rcases ActionLog.split_of_known orderly.ids known with ⟨before, after, split, sameId, others⟩
      have ids := orderly.ids
      have gsns := orderly.gsns
      have types := orderly.types
      rw [split] at ids gsns types ⊢
      rw [ActionLog.append_of_split sameId others]
      rw [List.map_append, List.map_cons] at ids gsns
      refine { orderly with ids := ?_, gsns := ?_, types := ?_ }
      · rw [List.map_append, List.map_cons]
        exact ids
      · rw [List.map_append, List.map_cons]
        exact gsns
      · intro stored member
        rcases List.mem_append.mp member with earlier | here
        · exact types stored (List.mem_append_left _ earlier)
        · rcases List.mem_cons.mp here with rfl | later
          · intro update merged
            rcases mem_mergeActionUpdates merged with old | new
            · exact types existing (List.mem_append_right _ List.mem_cons_self) update old
            · exact named update new
          · exact types stored (List.mem_append_right _ (List.mem_cons_of_mem _ later))

theorem Orderly.appendAll {actions : List (Action V)} (admits : view.log.AdmitsAll actions)
    (named : ∀ action ∈ actions, ∀ update ∈ action.updates, update.subjectType ≠ "") :
    ({ view with log := (view.log.appendAll actions).1 } : AdapterView V).Orderly := by
  induction actions generalizing view with
  | nil => exact orderly
  | cons action rest induction =>
      have parts := List.forall_mem_cons.mp named
      exact induction (orderly.append admits.1 parts.1) admits.2 parts.2

theorem Orderly.mark {entityId entityType : String} (named : entityType ≠ "")
    : (view.mark entityId entityType).Orderly := by
  unfold AdapterView.mark
  by_cases known : (view.dirty entityId).isSome = true
  · rw [if_pos known]
    exact orderly
  · rw [if_neg known]
    refine { orderly with marks := fun id type marked => ?_ }
    by_cases same : id = entityId
    · subst same
      have here := (Function.update_self _ _ _).symm.trans marked
      exact Option.some.inj here ▸ named
    · exact orderly.marks id type ((Function.update_of_ne same _ _).symm.trans marked)

theorem Orderly.unmark (entityId : String) : (view.unmark entityId).Orderly := by
  refine { orderly with marks := fun id type marked => ?_ }
  by_cases same : id = entityId
  · subst same
    cases (Function.update_self _ _ _).symm.trans marked
  · exact orderly.marks id type ((Function.update_of_ne same _ _).symm.trans marked)

theorem Orderly.replay (entityId : String) : (view.replay asString entityId).Orderly := by
  unfold AdapterView.replay
  by_cases dirty : (view.dirty entityId).isSome = true
  · rw [if_pos dirty]
    cases found : materialize view.log entityId with
    | none => exact orderly
    | some entity =>
        refine { orderly.unmark entityId with rows := fun id row held => ?_ }
        by_cases same : id = entityId
        · subst same
          cases (Function.update_self _ _ _).symm.trans held
          exact materialize_spec (· ≠ "") orderly.types entity found
        · exact orderly.rows id row ((Function.update_of_ne same _ _).symm.trans held)
  · rw [if_neg dirty]
    exact orderly

theorem Orderly.replayAll (entityIds : List String) :
    (view.replayAll asString entityIds).Orderly := by
  induction entityIds generalizing view with
  | nil => exact orderly
  | cons id rest induction => exact induction (orderly.replay asString id)

end

end AdapterView

end Ebb.Storage
