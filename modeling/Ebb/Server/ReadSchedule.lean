import Ebb.Foundation.Machine
import Ebb.Server.PatchWrites

namespace Ebb.Server.EntityStore

/-! An entity read at any moments of its history. Each read replays the Updates
committed since the one before and writes the row back. -/

/-! ## Reads -/

structure ReadState (V : Type) where
  log : List (Action V)
  row : Option (StoredRow V)

/-- Each event commits some Actions and reads the entity. -/
def readMachine (entityId : String) : Machine (ReadState V) (List (Action V)) where
  initial := { log := [], row := none }
  step state slice :=
    let log := state.log ++ slice
    some { log, row := materialize entityId log state.row }

/-- Actions in GSN order. A JSON object holds each of its keys once. -/
structure InGsnOrder (actions : List (Action V)) : Prop where
  positive : ∀ action ∈ actions, 0 < action.gsn
  ordered : actions.Pairwise fun earlier later => earlier.gsn < later.gsn
  keyed : ∀ action ∈ actions, ∀ update ∈ action.updates,
    (FieldValue.map (readFields update)).Keyed

structure ReadSchedule (V : Type) where
  slices : List (List (Action V))
  inOrder : InGsnOrder slices.flatten

def ReadSchedule.finalRow (schedule : ReadSchedule V) (entityId : String) :
    Option (StoredRow V) :=
  ((readMachine entityId).run (readMachine entityId).initial schedule.slices).bind ReadState.row

def ReadSchedule.wholeRow (schedule : ReadSchedule V) (entityId : String) :
    Option (StoredRow V) :=
  materialize entityId schedule.slices.flatten none

/-- Two rows alike in all but their creation time, and in their fields up to key
order. -/
structure SameRow (left right : StoredRow V) : Prop where
  type : left.type = right.type
  fields : ∃ leftFields rightFields, decodeData left.data = some leftFields ∧
    decodeData right.data = some rightFields ∧ SameFields leftFields rightFields
  updatedHlc : left.updatedHlc = right.updatedHlc
  deletedHlc : left.deletedHlc = right.deletedHlc
  deletedBy : left.deletedBy = right.deletedBy
  lastGsn : left.lastGsn = right.lastGsn

def RowsAgree : Option (StoredRow V) → Option (StoredRow V) → Prop
  | none, none => True
  | some left, some right => SameRow left right
  | _, _ => False

/-! ## What a replay yields -/

/-- The type a replay of a history ends with: that of its last put, or of its
first patch. -/
def typeOf (updates : List (CommittedUpdate V)) : Option String :=
  match updates.reverse.find? fun committed => committed.update.method = .put with
  | some put => some put.update.subjectType
  | none =>
      (updates.find? fun committed => committed.update.method = .patch).map fun patch =>
        patch.update.subjectType

def typeName (updates : List (CommittedUpdate V)) : String := (typeOf updates).getD "unknown"

/-- The delete a replay of a history ends under: its last Update other than a
put, when that is a delete. -/
def tombstone (updates : List (CommittedUpdate V)) : Option (CommittedUpdate V) :=
  (updates.reverse.find? fun committed => committed.update.method ≠ .put).filter fun last =>
    last.update.method = .delete

theorem type_foldl (updates : List (CommittedUpdate V)) (base : Fields V) :
    (updates.foldl applyCommitted (.initial base)).type = typeOf updates := by
  induction updates using List.reverseRecOn with
  | nil => rfl
  | append_singleton rest last induction =>
      rw [List.foldl_concat]
      cases method : last.update.method with
      | put => simp [applyCommitted, method, applyPut, typeOf]
      | patch =>
          simp only [applyCommitted, method, applyPatch, induction, typeOf, List.reverse_append,
            List.reverse_singleton, List.singleton_append, List.find?_append]
          cases lastPut : rest.reverse.find? fun committed => committed.update.method = .put with
          | some put => simp [method, lastPut]
          | none =>
              cases rest.find? fun committed => committed.update.method = .patch <;>
                simp [method, lastPut]
      | delete => simp [applyCommitted, method, applyDelete, induction, typeOf]

theorem deleted_foldl (updates : List (CommittedUpdate V)) (base : Fields V) :
    (updates.foldl applyCommitted (.initial base)).deletedHlc =
        (tombstone updates).map CommittedUpdate.hlc ∧
      (updates.foldl applyCommitted (.initial base)).deletedBy =
        (tombstone updates).map CommittedUpdate.actorId := by
  induction updates using List.reverseRecOn with
  | nil => exact ⟨rfl, rfl⟩
  | append_singleton rest last induction =>
      rw [List.foldl_concat]
      cases method : last.update.method with
      | put =>
          have same : tombstone (rest ++ [last]) = tombstone rest := by
            simp [tombstone, method]
          rw [same]
          simpa only [applyCommitted, method, applyPut] using induction
      | patch =>
          have none : tombstone (rest ++ [last]) = none := by
            simp [tombstone, method]
          rw [none]
          simp [applyCommitted, method, applyPatch]
      | delete =>
          have own : tombstone (rest ++ [last]) = some last := by
            simp [tombstone, method]
          rw [own]
          simp [applyCommitted, method, applyDelete]

variable {updates : List (CommittedUpdate V)} {row : StoredRow V} {committed : CommittedUpdate V}
  {entityId : String} {state : ReadState V} {slice : List (Action V)}
  {slices : List (List (Action V))}

theorem updatedHlc_foldl {last : CommittedUpdate V} (ends : updates.getLast? = some last)
    (acc : Replay V) :
    (updates.foldl applyCommitted acc).updatedHlc = last.hlc := by
  induction updates using List.reverseRecOn with
  | nil => cases ends
  | append_singleton rest other _ =>
      rw [List.getLast?_concat] at ends
      cases ends
      rw [List.foldl_concat]
      cases method : last.update.method <;>
        simp [applyCommitted, method, applyPut, applyPatch, applyDelete]

theorem maxGsn_applyCommitted (acc : Replay V) (committed : CommittedUpdate V) :
    (applyCommitted acc committed).maxGsn = max acc.maxGsn committed.gsn := by
  cases method : committed.update.method <;>
    simp [applyCommitted, method, applyPut, applyPatch, applyDelete]

theorem gsn_le_maxGsn {updates : List (CommittedUpdate V)} (acc : Replay V) :
    acc.maxGsn ≤ (updates.foldl applyCommitted acc).maxGsn ∧
      ∀ committed ∈ updates, committed.gsn ≤ (updates.foldl applyCommitted acc).maxGsn := by
  induction updates generalizing acc with
  | nil => simp
  | cons head rest induction =>
      have later := induction (applyCommitted acc head)
      have here := maxGsn_applyCommitted acc head
      rw [List.foldl_cons]
      refine ⟨by omega, fun committed member => ?_⟩
      rcases List.mem_cons.mp member with equal | member
      · subst equal
        omega
      · exact later.2 committed member

theorem maxGsn_attained {updates : List (CommittedUpdate V)} (acc : Replay V) :
    (updates.foldl applyCommitted acc).maxGsn = acc.maxGsn ∨
      ∃ committed ∈ updates, committed.gsn = (updates.foldl applyCommitted acc).maxGsn := by
  induction updates generalizing acc with
  | nil => exact .inl rfl
  | cons head rest induction =>
      rw [List.foldl_cons]
      rcases induction (applyCommitted acc head) with same | ⟨committed, member, attained⟩
      · rw [maxGsn_applyCommitted] at same
        by_cases below : acc.maxGsn ≤ head.gsn
        · exact .inr ⟨head, List.mem_cons_self, by omega⟩
        · exact .inl (by omega)
      · exact .inr ⟨committed, List.mem_cons_of_mem _ member, attained⟩

theorem sameFields_foldl (keyed : ∀ committed ∈ updates, Keyed committed) {left right : Replay V}
    (same : SameFields left.data right.data) :
    SameFields (updates.foldl applyCommitted left).data
      (updates.foldl applyCommitted right).data := by
  induction updates generalizing left right with
  | nil => exact same
  | cons head rest induction =>
      apply induction fun other member => keyed other (List.mem_cons_of_mem _ member)
      cases method : head.update.method with
      | put =>
          simp only [applyCommitted, method, applyPut]
          exact SameFields.refl _
      | patch =>
          simp only [applyCommitted, method, applyPatch, foldl_mergeField_eq,
            FieldMerge.mergeMaps_eq_mergeEntriesBy]
          exact SameFields.mergeEntriesBy FieldMerge.leafWinner (keyed head List.mem_cons_self) same
      | delete => simpa only [applyCommitted, method, applyDelete] using same

theorem dataMode_of_put {put : CommittedUpdate V} (member : put ∈ updates)
    (isPut : put.update.method = .put) (acc : Replay V) :
    (updates.foldl applyCommitted acc).dataMode = .replace := by
  have stays : ∀ (rest : List (CommittedUpdate V)) (acc : Replay V), acc.dataMode = .replace →
      (rest.foldl applyCommitted acc).dataMode = .replace := by
    intro rest
    induction rest with
    | nil => exact fun _ replace => replace
    | cons head rest induction =>
        intro acc replace
        apply induction
        cases method : head.update.method <;>
          simp [applyCommitted, method, applyPut, applyPatch, applyDelete, replace]
  rcases List.append_of_mem member with ⟨before, after, rfl⟩
  rw [List.foldl_append, List.foldl_cons]
  apply stays
  simp [applyCommitted, isPut, applyPut]

/-! ## One read -/

/-- A read that writes the whole document (it replays a put, or a field name that
cannot stand in a path), or loses no cached map. -/
def ReadKeepsMaps (entityId : String) (state : ReadState V) (slice : List (Action V)) : Prop :=
  let updates := entityUpdates slice entityId
  (∃ committed ∈ updates, committed.update.method = .put) ∨
  (∃ committed ∈ updates, committed.update.method = .patch ∧
    ∃ field ∈ stampedFields committed.update, isFieldName field.1 = false) ∨
  KeepsMaps (currentData state.row) updates

instance (entityId : String) (state : ReadState V) (slice : List (Action V)) :
    Decidable (ReadKeepsMaps entityId state slice) :=
  inferInstanceAs (Decidable (_ ∨ _))

/-- All of the row but its document is a replay's. -/
structure CarriesHeader (row : StoredRow V) (result : Replay V) : Prop where
  type : row.type = result.type.getD "unknown"
  updatedHlc : row.updatedHlc = result.updatedHlc
  deletedHlc : row.deletedHlc = result.deletedHlc
  deletedBy : row.deletedBy = result.deletedBy
  lastGsn : row.lastGsn = result.maxGsn

/-- The row's document holds these fields, up to key order. -/
def Holds (row : StoredRow V) (data : Fields V) : Prop :=
  ∃ fields, row.data = encodeData fields ∧ SameFields fields data

theorem Holds.congr {left right : Fields V} (holds : Holds row left) (same : SameFields left right)
    : Holds row right := by
  rcases holds with ⟨fields, encoded, holds⟩
  exact ⟨fields, encoded, holds.trans same⟩

theorem carries_upsertEntity (entityId : String) (result : Replay V)
    {existing : Option (StoredRow V)}
    (older : ∀ row, existing = some row → row.lastGsn ≤ result.maxGsn) :
    CarriesHeader (SQLite.upsertEntity (result.row entityId).stored existing) result ∧
      Holds (SQLite.upsertEntity (result.row entityId).stored existing) result.data := by
  cases existing with
  | none => exact ⟨⟨rfl, rfl, rfl, rfl, rfl⟩, _, rfl, SameFields.refl _⟩
  | some row =>
      have advances : row.lastGsn ≤ (result.row entityId).stored.lastGsn := older row rfl
      rw [SQLite.upsertEntity, if_pos advances]
      exact ⟨⟨rfl, rfl, rfl, rfl, rfl⟩, _, rfl, SameFields.refl _⟩

theorem safeChangedPaths_eq_false {base : Fields V} {acc : Replay V}
    (patched : Patched updates base acc) (member : committed ∈ updates)
    (isPatch : committed.update.method = .patch) {field : String × FieldValue V}
    (inFields : field ∈ stampedFields committed.update) (nameless : isFieldName field.1 = false)
    (keyed : Keyed committed) :
    safeChangedPaths acc.changed = false := by
  have found := (lookup_eq_some_iff_mem keyed.1 field.1 field.2).mpr inFields
  have carries : field.2 ∈ carried updates field.1 :=
    List.mem_filterMap.mpr ⟨committed, member, by rw [if_pos isPatch, found]⟩
  rcases List.exists_mem_of_ne_nil _ (leafPaths_ne_nil [] field.2) with ⟨keys, touched⟩
  have changed := (patched.changed (field.1 :: keys)).mpr
    ⟨field.1, field.2, carries, keys, touched, rfl⟩
  rw [safeChangedPaths, List.all_eq_false]
  exact ⟨_, changed, by simp [nameless]⟩

theorem carries_handleMaterializedResult {result : Replay V}
    (keyed : ∀ committed ∈ entityUpdates slice entityId, Keyed committed)
    (replayed : result = (entityUpdates slice entityId).foldl applyCommitted
      (.initial (currentData state.row)))
    (older : ∀ existing, state.row = some existing → existing.lastGsn ≤ result.maxGsn) :
    ∃ next, handleMaterializedResult entityId result state.row (currentData state.row) =
        some next ∧ CarriesHeader next result ∧
      ((∀ existing, state.row = some existing →
          existing.data = encodeData (currentData state.row)) →
        ReadKeepsMaps entityId state slice → Holds next result.data) := by
  rw [handleMaterializedResult]
  by_cases byPath : result.dataMode = .patch ∧ state.row.isSome ∧
      safeChangedPaths result.changed = true
  · rw [if_pos byPath]
    rcases byPath with ⟨mode, present, safe⟩
    rcases Option.isSome_iff_exists.mp present with ⟨existing, found⟩
    have advances : existing.lastGsn ≤ (result.row entityId).patchMeta.lastGsn :=
      older existing found
    have patchedRow : ∀ fields : List (Assignment V), SQLite.patchEntity
        (fields.map SQLite.encodeAssignment) (result.row entityId).patchMeta state.row =
          some { existing with
            data := SQLite.jsonSet existing.data
              ((fields.map SQLite.encodeAssignment).insertionSort SQLite.nameLe)
            type := result.type.getD "unknown"
            updatedHlc := result.updatedHlc
            deletedHlc := result.deletedHlc
            deletedBy := result.deletedBy
            lastGsn := result.maxGsn } := by
      intro fields
      rw [found, SQLite.patchEntity, if_pos advances]
      rfl
    refine ⟨_, patchedRow _, ⟨rfl, rfl, rfl, rfl, rfl⟩, fun encoded keeps => ?_⟩
    have noPut : ∀ committed ∈ entityUpdates slice entityId, committed.update.method ≠ .put := by
      intro committed member isPut
      rw [replayed, dataMode_of_put member isPut] at mode
      cases mode
    have patched : Patched (entityUpdates slice entityId) (currentData state.row) result :=
      replayed ▸ patched_foldl noPut keyed (currentData state.row)
    have maps : KeepsMaps (currentData state.row) (entityUpdates slice entityId) := by
      rcases keeps with ⟨committed, member, isPut⟩ | ⟨committed, member, isPatch, field, inFields,
        nameless⟩ | maps
      · exact absurd isPut (noPut committed member)
      · rw [safeChangedPaths_eq_false patched member isPatch inFields nameless
          (keyed committed member)] at safe
        cases safe
      · exact maps
    rcases jsonSet_buildPatchFields noPut keyed maps replayed with ⟨fields, written, same⟩
    refine ⟨fields, ?_, same⟩
    rw [encoded existing found, written]
  · rw [if_neg byPath]
    have carried := carries_upsertEntity entityId result older
    exact ⟨_, rfl, carried.1, fun _ _ => carried.2⟩

/-! ## Runs of reads -/

/-- The Updates the last read that found any replayed. -/
def lastRead (entityId : String) (slices : List (List (Action V))) : List (CommittedUpdate V) :=
  ((slices.map fun slice => entityUpdates slice entityId).reverse.find? fun updates =>
    !updates.isEmpty).getD []

theorem lastRead_concat (entityId : String) (slices : List (List (Action V)))
    (slice : List (Action V)) :
    lastRead entityId (slices ++ [slice]) =
      if entityUpdates slice entityId = [] then lastRead entityId slices
      else entityUpdates slice entityId := by
  cases read : entityUpdates slice entityId <;> simp [lastRead, read]

theorem entityUpdates_append (before after : List (Action V)) (entityId : String) :
    entityUpdates (before ++ after) entityId =
      entityUpdates before entityId ++ entityUpdates after entityId := List.flatMap_append

theorem lastRead_suffix (entityId : String) (slices : List (List (Action V))) :
    lastRead entityId slices <:+ entityUpdates slices.flatten entityId := by
  induction slices using List.reverseRecOn with
  | nil => exact List.suffix_rfl
  | append_singleton slices slice induction =>
      rw [lastRead_concat, List.flatten_concat, entityUpdates_append]
      split
      · next silent =>
          rw [silent, List.append_nil]
          exact induction
      · exact List.suffix_append _ _

theorem relevantActions_append {log : List (Action V)} {lastGsn : Nat}
    (applied : ∀ action ∈ log, action.touches entityId = true → action.gsn ≤ lastGsn)
    (newer : ∀ action ∈ slice, lastGsn < action.gsn) :
    relevantActions (log ++ slice) entityId lastGsn =
      slice.filter fun action => action.touches entityId := by
  rw [relevantActions, List.filter_append]
  have none : log.filter (fun action => action.touches entityId && decide (lastGsn < action.gsn)) =
      [] := by
    rw [List.filter_eq_nil_iff]
    intro action member holds
    rcases Bool.and_eq_true_iff.mp holds with ⟨touched, above⟩
    have below := applied action member touched
    have above := of_decide_eq_true above
    omega
  rw [none, List.nil_append]
  exact relevantActions_eq_filter newer entityId

theorem touched_of_entityUpdates {actions : List (Action V)} {action : Action V}
    (member : action ∈ actions) (touched : action.touches entityId = true) :
    ∃ committed ∈ entityUpdates actions entityId, committed.gsn = action.gsn := by
  rcases List.any_eq_true.mp touched with ⟨update, inUpdates, same⟩
  exact ⟨_, List.mem_flatMap.mpr ⟨action, member, List.mem_map.mpr
    ⟨update, List.mem_filter.mpr ⟨inUpdates, same⟩, rfl⟩⟩, rfl⟩

theorem action_of_entityUpdates {actions : List (Action V)}
    (member : committed ∈ entityUpdates actions entityId) :
    ∃ action ∈ actions, action.touches entityId = true ∧ committed.gsn = action.gsn ∧
      committed.update ∈ action.updates := by
  rcases List.mem_flatMap.mp member with ⟨action, inActions, mapped⟩
  rcases List.mem_map.mp mapped with ⟨update, inUpdates, rfl⟩
  rcases List.mem_filter.mp inUpdates with ⟨within, same⟩
  exact ⟨action, inActions, List.any_eq_true.mpr ⟨update, within, same⟩, rfl, within⟩

theorem materialize_append {log : List (Action V)} {row : Option (StoredRow V)}
    (applied : ∀ action ∈ log, action.touches entityId = true →
      action.gsn ≤ (row.map StoredRow.lastGsn).getD 0)
    (newer : ∀ action ∈ slice, (row.map StoredRow.lastGsn).getD 0 < action.gsn) :
    materialize entityId (log ++ slice) row =
      if entityUpdates slice entityId = [] then row
      else handleMaterializedResult entityId ((entityUpdates slice entityId).foldl applyCommitted
        (.initial (currentData row))) row (currentData row) := by
  rw [materialize]
  simp only [relevantActions_append applied newer]
  have same := entityUpdates_filter_touches slice entityId
  cases relevant : slice.filter fun action => action.touches entityId with
  | nil =>
      rw [relevant] at same
      have silent : entityUpdates slice entityId = [] := same.symm
      rw [if_pos silent]
  | cons action rest =>
      have touched : action ∈ slice ∧ action.touches entityId = true :=
        List.mem_filter.mp (relevant ▸ List.mem_cons_self)
      rcases touched_of_entityUpdates touched.1 touched.2 with ⟨committed, member, _⟩
      rw [if_neg (List.ne_nil_of_mem member)]
      have replayed : replay (currentData row) (action :: rest) entityId =
          (entityUpdates slice entityId).foldl applyCommitted (.initial (currentData row)) := by
        rw [replay_eq_foldl, ← relevant, same]
      exact congrArg (fun result => handleMaterializedResult entityId result row (currentData row))
        replayed

theorem keyed_of_entityUpdates {actions : List (Action V)} (inOrder : InGsnOrder actions)
    {entityId : String} : ∀ committed ∈ entityUpdates actions entityId, Keyed committed := by
  intro committed member
  rcases action_of_entityUpdates member with ⟨action, inActions, _, _, inUpdates⟩
  have keyed := inOrder.keyed action inActions committed.update inUpdates
  have stamped := FieldMerge.stamp_keyed committed.update.id keyed
  rwa [FieldMerge.stamp] at stamped

theorem InGsnOrder.left {before after : List (Action V)} (inOrder : InGsnOrder (before ++ after)) :
    InGsnOrder before where
  positive action member := inOrder.positive action (List.mem_append_left _ member)
  ordered := (List.pairwise_append.mp inOrder.ordered).1
  keyed action member := inOrder.keyed action (List.mem_append_left _ member)

theorem InGsnOrder.right {before after : List (Action V)}
    (inOrder : InGsnOrder (before ++ after)) : InGsnOrder after where
  positive action member := inOrder.positive action (List.mem_append_right _ member)
  ordered := (List.pairwise_append.mp inOrder.ordered).2.1
  keyed action member := inOrder.keyed action (List.mem_append_right _ member)

theorem maxGsn_foldl_eq (nonempty : updates ≠ []) {left right : Replay V}
    (leftBelow : ∀ committed ∈ updates, left.maxGsn < committed.gsn)
    (rightBelow : ∀ committed ∈ updates, right.maxGsn < committed.gsn) :
    (updates.foldl applyCommitted left).maxGsn = (updates.foldl applyCommitted right).maxGsn := by
  have atMost : ∀ left right : Replay V,
      (∀ committed ∈ updates, left.maxGsn < committed.gsn) →
        (updates.foldl applyCommitted left).maxGsn ≤
          (updates.foldl applyCommitted right).maxGsn := by
    intro left right below
    have bounds := (@gsn_le_maxGsn V updates right).2
    rcases @maxGsn_attained V updates left with same | ⟨committed, member, attained⟩
    · rcases List.exists_mem_of_ne_nil _ nonempty with ⟨committed, member⟩
      have above := below committed member
      have bound := bounds committed member
      omega
    · have bound := bounds committed member
      omega
  exact Nat.le_antisymm (atMost left right leftBelow) (atMost right left rightBelow)

def wholeReplay (entityId : String) (actions : List (Action V)) : Replay V :=
  (entityUpdates actions entityId).foldl applyCommitted (.initial [])

theorem wholeReplay_append (entityId : String) (before after : List (Action V)) :
    wholeReplay entityId (before ++ after) =
      (entityUpdates after entityId).foldl applyCommitted (wholeReplay entityId before) := by
  rw [wholeReplay, entityUpdates_append, List.foldl_append]
  rfl

structure ReadRow (entityId : String) (slices : List (List (Action V))) (row : StoredRow V) :
    Prop where
  found : entityUpdates slices.flatten entityId ≠ []
  type : row.type = typeName (lastRead entityId slices)
  updatedHlc : row.updatedHlc = (wholeReplay entityId slices.flatten).updatedHlc
  deletedHlc : row.deletedHlc = (tombstone (lastRead entityId slices)).map CommittedUpdate.hlc
  deletedBy : row.deletedBy = (tombstone (lastRead entityId slices)).map CommittedUpdate.actorId
  lastGsn : row.lastGsn = (wholeReplay entityId slices.flatten).maxGsn
  fields : (readMachine entityId).Meets (ReadKeepsMaps entityId) (readMachine entityId).initial
    slices → Holds row (wholeReplay entityId slices.flatten).data

structure AfterReads (entityId : String) (slices : List (List (Action V)))
    (state : ReadState V) : Prop where
  log : state.log = slices.flatten
  absent : state.row = none → entityUpdates slices.flatten entityId = []
  present : ∀ row, state.row = some row → ReadRow entityId slices row

theorem ReadRow.silent (read : ReadRow entityId slices row)
    (silent : entityUpdates slice entityId = [])
    (reached : (readMachine entityId).run (readMachine entityId).initial slices = some state) :
    ReadRow entityId (slices ++ [slice]) row := by
  have last := lastRead_concat entityId slices slice
  rw [if_pos silent] at last
  have same : wholeReplay entityId (slices ++ [slice]).flatten =
      wholeReplay entityId slices.flatten := by
    rw [List.flatten_concat, wholeReplay_append, silent]
    rfl
  refine ⟨?_, ?_, ?_, ?_, ?_, ?_, fun meets => ?_⟩
  · rw [List.flatten_concat, entityUpdates_append, silent, List.append_nil]
    exact read.found
  · rw [last]
    exact read.type
  · rw [same]
    exact read.updatedHlc
  · rw [last]
    exact read.deletedHlc
  · rw [last]
    exact read.deletedBy
  · rw [same]
    exact read.lastGsn
  · rw [same]
    exact read.fields ((Machine.meets_append reached).mp meets).1

theorem currentData_of_holds {data : Fields V} (holds : Holds row data) :
    row.data = encodeData (currentData (some row)) ∧ SameFields (currentData (some row)) data := by
  rcases holds with ⟨fields, encoded, same⟩
  have decoded : currentData (some row) = fields := by simp [currentData, encoded]
  rw [decoded]
  exact ⟨encoded, same⟩

theorem AfterReads.newer (inOrder : InGsnOrder (slices.flatten ++ slice)) (entityId : String) :
    ∀ action ∈ slice, (wholeReplay entityId slices.flatten).maxGsn < action.gsn := by
  intro action member
  rcases @maxGsn_attained V (entityUpdates slices.flatten entityId) (.initial []) with
    none | ⟨committed, inUpdates, attained⟩
  · rw [wholeReplay, none]
    exact inOrder.right.positive action member
  · rcases action_of_entityUpdates inUpdates with ⟨other, inActions, _, same, _⟩
    rw [wholeReplay, ← attained, same]
    exact (List.pairwise_append.mp inOrder.ordered).2.2 other inActions action member

theorem AfterReads.materialize_eq (after : AfterReads entityId slices state)
    (inOrder : InGsnOrder (slices.flatten ++ slice)) :
    materialize entityId (state.log ++ slice) state.row =
      if entityUpdates slice entityId = [] then state.row
      else handleMaterializedResult entityId ((entityUpdates slice entityId).foldl applyCommitted
        (.initial (currentData state.row))) state.row (currentData state.row) := by
  have rowGsn : (state.row.map StoredRow.lastGsn).getD 0 =
      (wholeReplay entityId slices.flatten).maxGsn := by
    cases found : state.row with
    | none =>
        rw [wholeReplay, after.absent found]
        rfl
    | some row => exact (after.present row found).lastGsn
  apply materialize_append
  · intro action member touched
    rw [after.log] at member
    rcases touched_of_entityUpdates member touched with ⟨committed, inUpdates, same⟩
    rw [rowGsn, ← same]
    exact (gsn_le_maxGsn (.initial [])).2 committed inUpdates
  · rw [rowGsn]
    exact AfterReads.newer inOrder entityId

theorem AfterReads.read (after : AfterReads entityId slices state)
    (inOrder : InGsnOrder (slices.flatten ++ slice))
    (reached : (readMachine entityId).run (readMachine entityId).initial slices = some state)
    (finds : entityUpdates slice entityId ≠ []) :
    ∃ next, materialize entityId (state.log ++ slice) state.row = some next ∧
      ReadRow entityId (slices ++ [slice]) next := by
  have keyed := @keyed_of_entityUpdates V slice inOrder.right entityId
  have fresh : ∀ committed ∈ entityUpdates slice entityId,
      (wholeReplay entityId slices.flatten).maxGsn < committed.gsn := by
    intro committed member
    rcases action_of_entityUpdates member with ⟨action, inActions, _, same, _⟩
    rw [same]
    exact AfterReads.newer inOrder entityId action inActions
  have bound := @gsn_le_maxGsn V (entityUpdates slice entityId) (.initial (currentData state.row))
  rcases List.exists_mem_of_ne_nil _ finds with ⟨someUpdate, someMember⟩
  have older : ∀ existing, state.row = some existing → existing.lastGsn ≤
      ((entityUpdates slice entityId).foldl applyCommitted
        (.initial (currentData state.row))).maxGsn := by
    intro existing found
    have below := fresh someUpdate someMember
    have above := bound.2 someUpdate someMember
    rw [(after.present existing found).lastGsn]
    omega
  rcases carries_handleMaterializedResult keyed rfl older with ⟨next, handled, header, document⟩
  refine ⟨next, ?_, ?_⟩
  · rw [after.materialize_eq inOrder, if_neg finds]
    exact handled
  · have last := lastRead_concat entityId slices slice
    rw [if_neg finds] at last
    have whole : wholeReplay entityId (slices ++ [slice]).flatten =
        (entityUpdates slice entityId).foldl applyCommitted
          (wholeReplay entityId slices.flatten) := by
      rw [List.flatten_concat, wholeReplay_append]
    have deleted := deleted_foldl (entityUpdates slice entityId) (currentData state.row)
    refine ⟨?_, ?_, ?_, ?_, ?_, ?_, fun meets => ?_⟩
    · rw [List.flatten_concat, entityUpdates_append]
      exact fun none => finds (List.append_eq_nil_iff.mp none).2
    · rw [last, header.type, type_foldl, typeName]
    · cases ends : (entityUpdates slice entityId).getLast? with
      | none => exact absurd (List.getLast?_eq_none_iff.mp ends) finds
      | some final => rw [header.updatedHlc, whole, updatedHlc_foldl ends, updatedHlc_foldl ends]
    · rw [last, header.deletedHlc, deleted.1]
    · rw [last, header.deletedBy, deleted.2]
    · rw [header.lastGsn, whole]
      apply maxGsn_foldl_eq finds
      · exact fun committed member => Nat.lt_of_le_of_lt (Nat.zero_le _) (fresh committed member)
      · exact fresh
    · have conditions := (Machine.meets_append reached).mp meets
      have sameBase : SameFields (currentData state.row)
          (wholeReplay entityId slices.flatten).data ∧
          ∀ existing, state.row = some existing →
            existing.data = encodeData (currentData state.row) := by
        cases found : state.row with
        | none =>
            rw [wholeReplay, after.absent found]
            exact ⟨SameFields.refl _, fun existing none => nomatch none⟩
        | some row =>
            have held := currentData_of_holds
              ((after.present row found).fields conditions.1)
            refine ⟨held.2, fun existing same => ?_⟩
            cases same
            exact held.1
      rw [whole]
      exact (document sameBase.2 conditions.2.1).congr (sameFields_foldl keyed sameBase.1)

theorem afterReads (inOrder : InGsnOrder slices.flatten)
    (reached : (readMachine entityId).run (readMachine entityId).initial slices = some state) :
    AfterReads entityId slices state := by
  have general := @Machine.run_induct _ _ (readMachine entityId) (fun slices state =>
    InGsnOrder slices.flatten → AfterReads entityId slices state) _ ?nil ?snoc _ _ reached
  case nil => exact fun _ => ⟨rfl, fun _ => rfl, fun _ none => nomatch none⟩
  case snoc =>
    intro before middle slice next there holds stepped inOrder
    rw [List.flatten_concat] at inOrder
    have after := holds inOrder.left
    cases stepped
    have log : middle.log ++ slice = (before ++ [slice]).flatten := by
      rw [after.log, List.flatten_concat]
    by_cases silent : entityUpdates slice entityId = []
    · have unread := after.materialize_eq inOrder
      rw [if_pos silent] at unread
      refine ⟨log, fun absent => ?_, fun row found => ?_⟩
      · rw [List.flatten_concat, entityUpdates_append, silent, List.append_nil]
        exact after.absent (unread.symm.trans absent)
      · exact (after.present row (unread.symm.trans found)).silent silent there
    · rcases after.read inOrder there silent with ⟨next, read, row⟩
      refine ⟨log, fun absent => ?_, fun other found => ?_⟩
      · cases read.symm.trans absent
      · cases read.symm.trans found
        exact row
  exact general inOrder

/-! ## Reading in parts against reading once -/

/-- The last read that found Updates gives the type the whole log gives. -/
def TypeKept (last whole : List (CommittedUpdate V)) : Prop := typeName last = typeName whole

/-- The last read that found Updates found a patch or a delete, or the whole log
ends under no delete. -/
def TombstoneKept (last whole : List (CommittedUpdate V)) : Prop :=
  (∃ committed ∈ last, committed.update.method ≠ .put) ∨ tombstone whole = none

instance (last whole : List (CommittedUpdate V)) : Decidable (TypeKept last whole) :=
  inferInstanceAs (Decidable (_ = _))

instance (last whole : List (CommittedUpdate V)) : Decidable (TombstoneKept last whole) :=
  decidable_of_iff ((∃ committed ∈ last, committed.update.method ≠ .put) ∨
    (tombstone whole).isNone = true) (by simp [TombstoneKept])

theorem tombstone_append (before after : List (CommittedUpdate V)) :
    tombstone (before ++ after) =
      if ∃ committed ∈ after, committed.update.method ≠ .put then tombstone after
      else tombstone before := by
  rw [tombstone, List.reverse_append, List.find?_append]
  split
  · next found =>
      rcases found with ⟨committed, member, notPut⟩
      have some : (after.reverse.find? fun committed =>
          decide (committed.update.method ≠ .put)).isSome = true := by
        rw [List.find?_isSome]
        exact ⟨committed, List.mem_reverse.mpr member, decide_eq_true notPut⟩
      rcases Option.isSome_iff_exists.mp some with ⟨last, lastFound⟩
      rw [tombstone, lastFound]
      rfl
  · next puts =>
      have none : after.reverse.find? (fun committed =>
          decide (committed.update.method ≠ .put)) = none := by
        rw [List.find?_eq_none]
        intro committed member notPut
        exact puts ⟨committed, List.mem_reverse.mp member, of_decide_eq_true notPut⟩
      rw [none]
      rfl

theorem tombstone_eq_iff {last whole : List (CommittedUpdate V)} (suffix : last <:+ whole) :
    ((tombstone last).map CommittedUpdate.hlc = (tombstone whole).map CommittedUpdate.hlc ∧
      (tombstone last).map CommittedUpdate.actorId =
        (tombstone whole).map CommittedUpdate.actorId) ↔ TombstoneKept last whole := by
  rcases suffix with ⟨before, rfl⟩
  by_cases found : ∃ committed ∈ last, committed.update.method ≠ .put
  · rw [tombstone_append, if_pos found]
    exact ⟨fun _ => .inl found, fun _ => ⟨rfl, rfl⟩⟩
  · have none : tombstone last = none := by
      have own := tombstone_append [] last
      rw [if_neg found] at own
      exact own
    rw [none]
    constructor
    · rintro ⟨same, _⟩
      exact .inr (Option.map_eq_none_iff.mp same.symm)
    · rintro (absurdly | kept)
      · exact absurd absurdly found
      · rw [kept]
        exact ⟨rfl, rfl⟩

theorem ReadRow.same_iff {left right : StoredRow V} (parts : ReadRow entityId slices left)
    (whole : ReadRow entityId [slices.flatten] right) :
    (left.type = right.type ↔
        TypeKept (lastRead entityId slices) (entityUpdates slices.flatten entityId)) ∧
      (left.deletedHlc = right.deletedHlc ∧ left.deletedBy = right.deletedBy ↔
        TombstoneKept (lastRead entityId slices) (entityUpdates slices.flatten entityId)) ∧
      left.updatedHlc = right.updatedHlc ∧ left.lastGsn = right.lastGsn := by
  have one : [slices.flatten].flatten = slices.flatten := by simp
  have last : lastRead entityId [slices.flatten] = entityUpdates slices.flatten entityId := by
    have single := lastRead_concat entityId [] slices.flatten
    rwa [if_neg parts.found] at single
  refine ⟨?_, ?_, ?_, ?_⟩
  · rw [parts.type, whole.type, last]
    rfl
  · rw [parts.deletedHlc, whole.deletedHlc, parts.deletedBy, whole.deletedBy, last]
    exact tombstone_eq_iff (lastRead_suffix entityId slices)
  · rw [parts.updatedHlc, whole.updatedHlc, one]
  · rw [parts.lastGsn, whole.lastGsn, one]

theorem run_isSome (entityId : String) (slices : List (List (Action V))) (state : ReadState V) :
    ∃ final, (readMachine entityId).run state slices = some final := by
  induction slices generalizing state with
  | nil => exact ⟨state, rfl⟩
  | cons slice rest induction =>
      rcases induction ⟨state.log ++ slice, materialize entityId (state.log ++ slice) state.row⟩
        with ⟨final, reached⟩
      exact ⟨final, Machine.run_cons.mpr ⟨_, rfl, reached⟩⟩

/-- Rows that agree have kept the type and the tombstone of the whole log, and
reads that keep these and every cached map end in the row of one replay. -/
theorem finalRow_agrees (schedule : ReadSchedule V) (entityId : String) :
    let last := lastRead entityId schedule.slices
    let whole := entityUpdates schedule.slices.flatten entityId
    (RowsAgree (schedule.finalRow entityId) (schedule.wholeRow entityId) →
        TypeKept last whole ∧ TombstoneKept last whole) ∧
      ((readMachine entityId).Meets (ReadKeepsMaps entityId) (readMachine entityId).initial
          schedule.slices → TypeKept last whole ∧ TombstoneKept last whole →
        RowsAgree (schedule.finalRow entityId) (schedule.wholeRow entityId)) := by
  intro last whole
  rcases run_isSome entityId schedule.slices (readMachine entityId).initial with ⟨final, reached⟩
  have parts := afterReads schedule.inOrder reached
  have inOrder : InGsnOrder [schedule.slices.flatten].flatten := by simpa using schedule.inOrder
  have once : (readMachine entityId).run (readMachine entityId).initial
      [schedule.slices.flatten] =
        some ⟨schedule.slices.flatten, schedule.wholeRow entityId⟩ := rfl
  have single := afterReads inOrder once
  have joined : [schedule.slices.flatten].flatten = schedule.slices.flatten := by simp
  have finalRow : schedule.finalRow entityId = final.row := by
    rw [ReadSchedule.finalRow, reached]
    rfl
  rw [finalRow]
  have onceMeets : (readMachine entityId).Meets (ReadKeepsMaps entityId)
      (readMachine entityId).initial [schedule.slices.flatten] :=
    ⟨.inr (.inr fun field member => nomatch member), fun _ _ => trivial⟩
  cases partRow : final.row with
  | none =>
      have silent : whole = [] := parts.absent partRow
      cases wholeRow : schedule.wholeRow entityId with
      | none =>
          have noLast : last = [] := by
            have suffix : last <:+ whole := lastRead_suffix entityId schedule.slices
            rw [silent] at suffix
            exact List.suffix_nil.mp suffix
          refine ⟨fun _ => ⟨?_, ?_⟩, fun _ _ => trivial⟩
          · rw [TypeKept, noLast, silent]
          · rw [TombstoneKept, silent]
            exact .inr rfl
      | some row =>
          exact absurd (joined.symm ▸ silent) (single.present row wholeRow).found
  | some row =>
      have read := parts.present row partRow
      cases wholeRow : schedule.wholeRow entityId with
      | none =>
          exact absurd (joined ▸ single.absent wholeRow) read.found
      | some other =>
          have readWhole := single.present other wholeRow
          have same := read.same_iff readWhole
          constructor
          · intro agree
            exact ⟨same.1.mp agree.type, same.2.1.mp ⟨agree.deletedHlc, agree.deletedBy⟩⟩
          · rintro meets ⟨typeKept, tombstoneKept⟩
            have deleted := same.2.1.mpr tombstoneKept
            rcases read.fields meets with ⟨fields, encoded, sameFields⟩
            rcases readWhole.fields onceMeets with ⟨wholeFields, wholeEncoded, sameWhole⟩
            rw [joined] at sameWhole
            exact {
              type := same.1.mpr typeKept
              fields := ⟨fields, wholeFields, by simp [encoded], by simp [wholeEncoded],
                sameFields.trans sameWhole.symm⟩
              updatedHlc := same.2.2.1
              deletedHlc := deleted.1
              deletedBy := deleted.2
              lastGsn := same.2.2.2 }

/-! ### A delete read on its own -/

def noteAction (gsn : Nat) (method : UpdateMethod) (field value : String) : Action String where
  id := "act_1"
  actorId := "usr_1"
  hlc := gsn
  gsn
  updates := [{
    id := "upd_1"
    subjectId := "note_1"
    subjectType := "note"
    method
    data := some [(field, .leaf { value, updateId := "upd_1", hlc := some gsn })] }]

def patchedNote : ReadSchedule String where
  slices := [[noteAction 1 .put "title" "draft"], [noteAction 2 .patch "body" "text"]]
  inOrder := {
    positive := by simp [noteAction]
    ordered := by simp [noteAction]
    keyed := by simp [noteAction, readFields, FieldValue.Keyed, fieldsKeyed] }

theorem patchedNote_agrees :
    RowsAgree (patchedNote.finalRow "note_1") (patchedNote.wholeRow "note_1") :=
  (finalRow_agrees patchedNote "note_1").2 (by decide) (by decide)

def deletedNote : ReadSchedule String where
  slices := [[noteAction 1 .put "title" "draft"], [noteAction 2 .delete "title" "draft"]]
  inOrder := {
    positive := by simp [noteAction]
    ordered := by simp [noteAction]
    keyed := by simp [noteAction, readFields, FieldValue.Keyed, fieldsKeyed] }

/-- The read of the delete alone leaves a row of no known type. -/
theorem deletedNote_loses_type :
    ¬ RowsAgree (deletedNote.finalRow "note_1") (deletedNote.wholeRow "note_1") := by
  intro agree
  have types : (deletedNote.finalRow "note_1").map StoredRow.type =
      (deletedNote.wholeRow "note_1").map StoredRow.type := by
    cases final : deletedNote.finalRow "note_1" with
    | none => exact absurd (congrArg Option.isSome final) (by decide)
    | some row =>
        cases whole : deletedNote.wholeRow "note_1" with
        | none => exact absurd (congrArg Option.isSome whole) (by decide)
        | some other =>
            rw [final, whole] at agree
            exact congrArg some agree.type
  revert types
  decide

end Ebb.Server.EntityStore
