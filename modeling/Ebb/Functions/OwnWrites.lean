import Ebb.Functions.Overlay
import Ebb.Server.ClientAgreement

namespace Ebb.Functions

open Server

/-! What an invocation reads of a row it wrote, against what its Action stores: the
overlay is a third interpreter of puts, patches and deletes beside the server's
replay and the client's fold. -/

/-! ## The three interpreters -/

/-- The row a read materializes from the cached row and the Actions above it. -/
def materializedRow (entityId : String) (log : List (Action V))
    (row : Option (EntityStore.EntityRow V)) : Option (EntityStore.EntityRow V) :=
  match EntityStore.relevantActions log entityId
    ((row.map EntityStore.EntityRow.lastGsn).getD 0) with
  | [] => row
  | relevant =>
      some ((EntityStore.replay ((row.map EntityStore.EntityRow.data).getD []) relevant
        entityId).row entityId)

def response (row : EntityStore.EntityRow V) : EntityResponse V where
  id := row.id
  type := row.type
  fields := row.data
  createdHlc := some row.createdHlc
  updatedHlc := some row.updatedHlc
  deletedHlc := row.deletedHlc
  lastGsn := row.lastGsn

def clientRow (row : EntityStore.EntityRow V) : Storage.Entity V where
  id := row.id
  type := row.type
  fields := row.data
  createdHlc := row.createdHlc
  updatedHlc := row.updatedHlc
  deletedHlc := row.deletedHlc
  lastGsn := row.lastGsn

/-- An invocation over the rows and the log of its host, with the Action its buffer
goes out as. The planner stamps every leaf of a patch (`wrapFields`); rows of links and
memberships, whose leaves go without a timestamp, are put whole. -/
structure Invocation (V : Type) where
  rows : String → Option (EntityStore.EntityRow V)
  log : List (Action V)
  action : Action V
  newer : ∀ id row, rows id = some row → row.lastGsn < action.gsn
  positive : 0 < action.gsn
  rowsWellFormed : ∀ id row, rows id = some row → fieldsWellFormed row.data
  logWellFormed : ∀ entry ∈ log, ∀ update ∈ entry.updates, update.WellFormed
  bufferWellFormed : ∀ update ∈ action.updates, update.WellFormed
  bufferStamped : ∀ update ∈ action.updates, update.method = .patch →
    StampedPatch (readFields update)

namespace Invocation

variable [WireValue V]

def hostRow (invocation : Invocation V) (id : String) : Option (EntityStore.EntityRow V) :=
  materializedRow id invocation.log (invocation.rows id)

/-- What `ctx.get` reads of the host: nothing of an absent or a deleted row. -/
def readHost (invocation : Invocation V) (id : String) : Option (EntityResponse V) :=
  ((invocation.hostRow id).bind EntityStore.formatLiveEntity).map response

def surface (invocation : Invocation V) : WriteSurface V :=
  WriteSurface.empty.record invocation.action.updates

/-- The type and fields a read through the overlay returns. -/
def overlayView (invocation : Invocation V) (id : String) : Option (String × Fields V) :=
  (readOverlay (invocation.surface.overlaySource invocation.readHost) id).map fun row =>
    (row.type, row.fields)

/-- What the server materializes once the buffered Action is committed. -/
def serverView (invocation : Invocation V) (id : String) : Option (String × Fields V) :=
  ((materializedRow id (invocation.log ++ [invocation.action]) (invocation.rows id)).bind
    EntityStore.formatLiveEntity).map fun row => (row.type, row.data)

def committed (invocation : Invocation V) (id : String) : List (CommittedUpdate V) :=
  entityUpdates [invocation.action] id

/-- What a client that holds the host's row materializes from the Action. -/
def clientView (invocation : Invocation V) (id : String) : Option (String × Fields V) :=
  Storage.liveView ((invocation.committed id).foldl Storage.applyCommitted
    ((invocation.hostRow id).map clientRow))

/-- A read through the overlay returns what the server and the clients will show, and
every field of it is a value. -/
def SeesOwnWrites (invocation : Invocation V) (id : String) : Prop :=
  (∀ row, readOverlay (invocation.surface.overlaySource invocation.readHost) id = some row →
      row.inherited = []) ∧
    invocation.overlayView id = invocation.serverView id ∧
      invocation.overlayView id = invocation.clientView id

end Invocation

def lastType (committed : List (CommittedUpdate V)) : Option String :=
  committed.getLast?.map fun entry => entry.update.subjectType

def putType (committed : List (CommittedUpdate V)) : Option String :=
  lastType (committed.filter fun entry => decide (entry.update.method = .put))

def patchType (committed : List (CommittedUpdate V)) : Option String :=
  (committed.find? fun entry => decide (entry.update.method = .patch)).map fun entry =>
    entry.update.subjectType

variable {acc : EntityStore.Replay V} (entity : Option (Storage.Entity V))
  (committed : List (CommittedUpdate V))

theorem putType_append (last : CommittedUpdate V) :
    putType (committed ++ [last]) =
      if last.update.method = .put then some last.update.subjectType else putType committed := by
  rw [putType, lastType, List.filter_append]
  by_cases method : last.update.method = .put
  · simp [method]
  · simp [method, putType, lastType]

theorem putType_eq_none_iff : putType committed = none ↔ .put ∉ methodsOf committed := by
  simp [putType, lastType, methodsOf]

theorem patchType_append (last : CommittedUpdate V) :
    patchType (committed ++ [last]) =
      (patchType committed).or
        (if last.update.method = .patch then some last.update.subjectType else none) := by
  rw [patchType, patchType, List.find?_append]
  by_cases method : last.update.method = .patch <;>
    cases committed.find? fun entry => decide (entry.update.method = .patch) <;> simp [method]

theorem patchType_eq_none_iff : patchType committed = none ↔ .patch ∉ methodsOf committed := by
  simp [patchType, methodsOf]

/-! ## When the three agree -/

namespace Invocation

/-- The accumulators the server replays the invocation's Action onto. -/
def replayStart (invocation : Invocation V) (id : String) : EntityStore.Replay V :=
  EntityStore.replay (((invocation.rows id).map EntityStore.EntityRow.data).getD [])
    (EntityStore.relevantActions invocation.log id
      (((invocation.rows id).map EntityStore.EntityRow.lastGsn).getD 0)) id

def hostLive (invocation : Invocation V) (id : String) : Bool :=
  ((invocation.hostRow id).bind EntityStore.formatLiveEntity).isSome

/-- The writes after which every interpreter shows the row, or none does. -/
def SharesLiveness (invocation : Invocation V) (id : String) : Prop :=
  let methods := methodsOf (invocation.committed id)
  (.delete ∉ methods ∧ .put ∈ methods ∧
      (.patch ∈ methods ∨ (invocation.replayStart id).deletedHlc = none)) ∨
    (.delete ∉ methods ∧ .put ∉ methods ∧ invocation.hostLive id = true) ∨
    (.delete ∈ methods ∧ (afterLastDelete methods = [] ∨
      (.put ∈ afterLastDelete methods ∧ .patch ∈ afterLastDelete methods)))

/-- The last write names the type the row has: that of the last put, or that of the
host's row, which the first patch names too where the server replays from a cached
row. -/
def KeepsType (invocation : Invocation V) (id : String) : Prop :=
  let committed := invocation.committed id
  match putType committed with
  | some type => lastType committed = some type
  | none =>
      let hostType := (invocation.hostRow id).map EntityStore.EntityRow.type
      lastType committed = hostType ∧
        ((invocation.replayStart id).type = none → patchType committed = hostType)

def Reproduced (invocation : Invocation V) (id : String) : Prop :=
  invocation.committed id = [] ∨
    (invocation.SharesLiveness id ∧
      (afterLastDelete (methodsOf (invocation.committed id)) ≠ [] → invocation.KeepsType id))

end Invocation

/-! ## The server's replay -/

theorem foldl_deleted_iff (acc : EntityStore.Replay V) (committed : List (CommittedUpdate V)) :
    ((committed.foldl EntityStore.applyCommitted acc).deletedHlc.isSome = true) ↔
      (.delete ∈ methodsOf committed ∧ .patch ∉ afterLastDelete (methodsOf committed)) ∨
        (.delete ∉ methodsOf committed ∧ .patch ∉ methodsOf committed ∧
          acc.deletedHlc.isSome = true) := by
  induction committed using List.reverseRecOn with
  | nil => simp [methodsOf]
  | append_singleton rest last induction =>
      rw [List.foldl_concat]
      simp only [methodsOf, List.map_append, List.map_cons, List.map_nil] at induction ⊢
      cases method : last.update.method with
      | put =>
          rw [afterLastDelete_append (by decide)]
          simpa [EntityStore.applyCommitted, method, EntityStore.applyPut] using induction
      | patch =>
          rw [afterLastDelete_append (by decide)]
          simp [EntityStore.applyCommitted, method, EntityStore.applyPatch]
      | delete => simp [EntityStore.applyCommitted, method, EntityStore.applyDelete]

theorem foldl_type (acc : EntityStore.Replay V) (committed : List (CommittedUpdate V)) :
    (committed.foldl EntityStore.applyCommitted acc).type =
      (putType committed).or (acc.type.or (patchType committed)) := by
  induction committed using List.reverseRecOn with
  | nil => simp [putType, lastType, patchType]
  | append_singleton rest last induction =>
      rw [List.foldl_concat, putType_append, patchType_append]
      cases method : last.update.method with
      | put => simp [EntityStore.applyCommitted, method, EntityStore.applyPut]
      | patch =>
          simp only [EntityStore.applyCommitted, method, EntityStore.applyPatch, induction]
          cases putType rest <;> cases acc.type <;> cases patchType rest <;> rfl
      | delete =>
          simp [EntityStore.applyCommitted, method, EntityStore.applyDelete, induction]

/-! ## The client's fold -/

theorem fold_live_iff_of :
    (Storage.liveView (committed.foldl Storage.applyCommitted entity)).isSome = true ↔
      .put ∈ afterLastDelete (methodsOf committed) ∨
        (.delete ∉ methodsOf committed ∧ (Storage.liveView entity).isSome = true) := by
  induction committed using List.reverseRecOn with
  | nil => simp [methodsOf, afterLastDelete]
  | append_singleton rest last induction =>
      rw [List.foldl_concat]
      simp only [methodsOf, List.map_append, List.map_cons, List.map_nil] at induction ⊢
      generalize rest.foldl Storage.applyCommitted entity = folded at induction ⊢
      cases method : last.update.method with
      | put =>
          rw [afterLastDelete_append (by decide)]
          simp [Storage.applyCommitted, Storage.applyUpdate, method, Storage.liveView]
      | patch =>
          rw [afterLastDelete_append (by decide), List.mem_append]
          cases folded with
          | none =>
              simpa [Storage.applyCommitted, Storage.applyUpdate, method, Storage.liveView]
                using induction
          | some row =>
              cases deleted : row.deletedHlc <;>
                simpa [Storage.applyCommitted, Storage.applyUpdate, method, Storage.liveView,
                  deleted] using induction
      | delete =>
          cases folded <;>
            simp [Storage.applyCommitted, Storage.applyUpdate, method, Storage.liveView]

theorem fold_type {row : Storage.Entity V}
    (folds : committed.foldl Storage.applyCommitted entity = some row) :
    (putType committed).or (entity.map Storage.Entity.type) = some row.type := by
  induction committed using List.reverseRecOn generalizing row with
  | nil => simp_all [putType, lastType]
  | append_singleton rest last induction =>
      rw [List.foldl_concat] at folds
      rw [putType_append]
      cases method : last.update.method with
      | put =>
          simp only [Storage.applyCommitted, Storage.applyUpdate, method, Option.some.injEq]
            at folds
          simp [← folds]
      | patch =>
          cases before : rest.foldl Storage.applyCommitted entity with
          | none => simp [Storage.applyCommitted, Storage.applyUpdate, method, before] at folds
          | some old =>
              simp only [Storage.applyCommitted, Storage.applyUpdate, method, before] at folds
              have kept := induction before
              split at folds <;> simp [← Option.some.inj folds, kept]
      | delete =>
          cases before : rest.foldl Storage.applyCommitted entity with
          | none => simp [Storage.applyCommitted, Storage.applyUpdate, method, before] at folds
          | some old =>
              simp only [Storage.applyCommitted, Storage.applyUpdate, method, before,
                Option.some.injEq] at folds
              simp [← folds, induction before]

/-! ## The shared document -/

theorem wellFormed_applyCommitted (held : fieldsWellFormed acc.data) {committed : CommittedUpdate V}
    (wellFormed : committed.update.WellFormed) :
    fieldsWellFormed (EntityStore.applyCommitted acc committed).data := by
  have stamped : EntityStore.stampedFields committed.update = readFields committed.update :=
    FieldMerge.stampEntries_eq_self committed.update.id wellFormed
  cases method : committed.update.method with
  | put =>
      simp only [EntityStore.applyCommitted, method, EntityStore.applyPut, stamped]
      exact wellFormed
  | patch =>
      simp only [EntityStore.applyCommitted, method, EntityStore.applyPatch, stamped,
        EntityStore.foldl_mergeField_eq]
      exact (FieldMerge.mergeMaps_wellFormed held wellFormed).2
  | delete =>
      simp only [EntityStore.applyCommitted, method, EntityStore.applyDelete]
      exact held

theorem wellFormed_foldl (held : fieldsWellFormed acc.data) {committed : List (CommittedUpdate V)}
    (wellFormed : ∀ entry ∈ committed, entry.update.WellFormed) :
    fieldsWellFormed (committed.foldl EntityStore.applyCommitted acc).data := by
  induction committed generalizing acc with
  | nil => exact held
  | cons entry rest induction =>
      rw [List.foldl_cons]
      exact induction (wellFormed_applyCommitted held (wellFormed entry List.mem_cons_self))
        fun other member => wellFormed other (List.mem_cons_of_mem _ member)

/-- While the client shows the row, the server's accumulators and the overlay hold
its document. -/
structure SameDocument (acc : EntityStore.Replay V) (entity : Option (Storage.Entity V))
    (fields : Option (Fields V)) : Prop where
  wellFormed : fieldsWellFormed acc.data
  replayed : ∀ row, entity = some row → row.deletedHlc = none → acc.data = row.fields
  overlaid : ∀ row, entity = some row → row.deletedHlc = none → fields = some row.fields

theorem SameDocument.step {entity : Option (Storage.Entity V)} {fields : Option (Fields V)}
    (same : SameDocument acc entity fields) {committed : CommittedUpdate V}
    (wellFormed : committed.update.WellFormed)
    (patched : committed.update.method = .patch → StampedPatch (readFields committed.update)) :
    SameDocument (EntityStore.applyCommitted acc committed)
      (Storage.applyCommitted entity committed) (applyFields fields committed.update) := by
  refine ⟨wellFormed_applyCommitted same.wellFormed wellFormed, ?_, ?_⟩
  all_goals
    intro row folds live
    have stamped : EntityStore.stampedFields committed.update = readFields committed.update :=
      FieldMerge.stampEntries_eq_self committed.update.id wellFormed
    rw [Storage.applyCommitted] at folds
    cases method : committed.update.method with
    | put =>
        simp only [Storage.applyUpdate, method, Option.some.injEq] at folds
        simp [EntityStore.applyCommitted, applyFields, method, EntityStore.applyPut, stamped,
          ← folds]
    | patch =>
        cases entity with
        | none => simp [Storage.applyUpdate, method] at folds
        | some old =>
            simp only [Storage.applyUpdate, method] at folds
            split at folds
            · next deleted =>
              rw [Option.some.inj folds, live] at deleted
              cases deleted
            · next alive =>
              have alive : old.deletedHlc = none := by simpa using alive
              have replayed := same.replayed old rfl alive
              have overlaid := same.overlaid old rfl alive
              have patch := patched method
              have merged := FieldMerge.mergeMaps_eq_mergeEntries same.wellFormed wellFormed
                patch.keyed (patch.names.ownsNames _)
              rw [replayed] at merged
              simp only [EntityStore.applyCommitted, applyFields, method,
                EntityStore.applyPatch, stamped, EntityStore.foldl_mergeField_eq, merged,
                mergeOnto_eq_mergeEntries _ patch.keyed.1, ← Option.some.inj folds, replayed, overlaid,
                Storage.mergeFields, Option.getD_some]
    | delete =>
        cases entity with
        | none => simp [Storage.applyUpdate, method] at folds
        | some old =>
            simp only [Storage.applyUpdate, method, Option.some.injEq] at folds
            rw [← folds] at live
            cases live

theorem SameDocument.foldl {entity : Option (Storage.Entity V)} {fields : Option (Fields V)}
    (same : SameDocument acc entity fields) {committed : List (CommittedUpdate V)}
    (wellFormed : ∀ entry ∈ committed, entry.update.WellFormed)
    (patched : ∀ entry ∈ committed, entry.update.method = .patch →
      StampedPatch (readFields entry.update)) :
    SameDocument (committed.foldl EntityStore.applyCommitted acc)
      (committed.foldl Storage.applyCommitted entity)
      ((committed.map CommittedUpdate.update).foldl applyFields fields) := by
  induction committed generalizing acc entity fields with
  | nil => exact same
  | cons entry rest induction =>
      rw [List.map_cons, List.foldl_cons, List.foldl_cons, List.foldl_cons]
      apply induction
      · exact same.step (wellFormed entry List.mem_cons_self) (patched entry List.mem_cons_self)
      · exact fun other member => wellFormed other (List.mem_cons_of_mem _ member)
      · exact fun other member => patched other (List.mem_cons_of_mem _ member)

namespace Invocation

variable (invocation : Invocation V) (id : String)

theorem committed_eq :
    invocation.committed id = (invocation.action.updatesOf id).map fun update =>
      { gsn := invocation.action.gsn, hlc := invocation.action.hlc,
        actorId := invocation.action.actorId, update } := by
  simp [committed, entityUpdates]

theorem map_update_committed :
    (invocation.committed id).map CommittedUpdate.update = invocation.action.updatesOf id := by
  rw [committed_eq, List.map_map]
  exact List.map_id _

theorem mem_updates_of_committed {invocation : Invocation V} {id : String}
    {entry : CommittedUpdate V} (member : entry ∈ invocation.committed id) :
    entry.update ∈ invocation.action.updates := by
  rw [committed_eq] at member
  obtain ⟨update, listed, rfl⟩ := List.mem_map.mp member
  exact List.mem_of_mem_filter listed

/-! ### The server's view -/

theorem relevantActions_committed :
    EntityStore.relevantActions (invocation.log ++ [invocation.action]) id
        (((invocation.rows id).map EntityStore.EntityRow.lastGsn).getD 0) =
      EntityStore.relevantActions invocation.log id
        (((invocation.rows id).map EntityStore.EntityRow.lastGsn).getD 0) ++
      if invocation.action.touches id then [invocation.action] else [] := by
  have above : ((invocation.rows id).map EntityStore.EntityRow.lastGsn).getD 0 <
      invocation.action.gsn := by
    cases found : invocation.rows id with
    | none => exact invocation.positive
    | some row => exact invocation.newer id row found
  rw [EntityStore.relevantActions, List.filter_append, EntityStore.relevantActions]
  cases touched : invocation.action.touches id <;> simp [touched, above]

theorem touches_iff : invocation.action.touches id = true ↔ invocation.committed id ≠ [] := by
  rw [committed_eq, ne_eq, List.map_eq_nil_iff, Action.updatesOf, List.filter_eq_nil_iff,
    Action.touches, List.any_eq_true]
  simp

theorem serverView_untouched (untouched : invocation.committed id = []) :
    invocation.serverView id =
      ((invocation.hostRow id).bind EntityStore.formatLiveEntity).map fun row =>
        (row.type, row.data) := by
  have same : invocation.action.touches id = false := by
    rw [← Bool.not_eq_true, touches_iff, not_not]
    exact untouched
  rw [serverView, hostRow, materializedRow, relevantActions_committed, same]
  simp only [Bool.false_eq_true, if_false, List.append_nil]
  rfl

theorem serverView_eq (wrote : invocation.committed id ≠ []) :
    invocation.serverView id =
      let result := (invocation.committed id).foldl EntityStore.applyCommitted
        (invocation.replayStart id)
      if result.deletedHlc.isSome then none
      else some (result.type.getD "unknown", result.data) := by
  have touched := (touches_iff invocation id).mpr wrote
  have replayed : EntityStore.replay
      (((invocation.rows id).map EntityStore.EntityRow.data).getD [])
      (EntityStore.relevantActions invocation.log id
        (((invocation.rows id).map EntityStore.EntityRow.lastGsn).getD 0) ++
          [invocation.action]) id =
      (invocation.committed id).foldl EntityStore.applyCommitted (invocation.replayStart id) := by
    rw [EntityStore.replay, List.foldl_append, committed_eq]
    rfl
  rw [serverView, materializedRow, relevantActions_committed, touched, if_pos rfl]
  split
  · next nothing => simp at nothing
  · rw [replayed, Option.bind_some, EntityStore.formatLiveEntity, apply_ite (Option.map _)]
    rfl

/-! ### The host's row -/

theorem hostRow_cases :
    (invocation.replayStart id =
        .initial (((invocation.rows id).map EntityStore.EntityRow.data).getD []) ∧
      invocation.hostRow id = invocation.rows id) ∨
    invocation.hostRow id = some ((invocation.replayStart id).row id) := by
  rw [replayStart, hostRow, materializedRow]
  split
  · next nothing =>
    rw [nothing]
    exact .inl ⟨rfl, rfl⟩
  · next relevant found => exact .inr rfl

theorem hostLive_iff :
    invocation.hostLive id = true ↔
      (Storage.liveView ((invocation.hostRow id).map clientRow)).isSome = true := by
  rw [hostLive]
  cases invocation.hostRow id with
  | none => simp [Storage.liveView]
  | some row =>
      rw [Option.bind_some, Option.map_some, EntityStore.formatLiveEntity, Storage.liveView]
      cases deleted : row.deletedHlc <;> simp [clientRow, deleted]

theorem tombstone_of_hostLive {invocation : Invocation V} {id : String}
    (live : invocation.hostLive id = true) : (invocation.replayStart id).deletedHlc = none := by
  rcases hostRow_cases invocation id with ⟨start, _⟩ | found
  · rw [start]
    rfl
  · rw [hostLive, found, Option.bind_some, EntityStore.formatLiveEntity] at live
    cases deleted : (invocation.replayStart id).deletedHlc with
    | none => rfl
    | some hlc => simp [EntityStore.Replay.row, deleted] at live

theorem wellFormed_replayStart : fieldsWellFormed (invocation.replayStart id).data := by
  rw [replayStart, EntityStore.replay_eq_foldl]
  apply wellFormed_foldl
  · rw [EntityStore.Replay.initial]
    cases found : invocation.rows id with
    | none => exact trivial
    | some row => exact invocation.rowsWellFormed id row found
  · intro entry member
    obtain ⟨action, inLog, listed⟩ := List.mem_flatMap.mp member
    obtain ⟨update, inAction, rfl⟩ := List.mem_map.mp listed
    exact invocation.logWellFormed action (List.mem_of_mem_filter inLog) update
      (List.mem_of_mem_filter inAction)

theorem sameDocument_host :
    SameDocument (invocation.replayStart id) ((invocation.hostRow id).map clientRow)
      (some (((invocation.readHost id).map EntityResponse.fields).getD [])) := by
  refine ⟨invocation.wellFormed_replayStart id, ?_, ?_⟩
  · intro entity held live
    rcases hostRow_cases invocation id with ⟨start, found⟩ | found
    · obtain ⟨row, cached, rfl⟩ := Option.map_eq_some_iff.mp held
      rw [found] at cached
      rw [start, cached]
      rfl
    · obtain ⟨row, same, rfl⟩ := Option.map_eq_some_iff.mp held
      rw [found] at same
      rw [← Option.some.inj same]
      rfl
  · intro entity held live
    obtain ⟨row, found, rfl⟩ := Option.map_eq_some_iff.mp held
    have undeleted : row.deletedHlc = none := live
    rw [readHost, found, Option.bind_some, EntityStore.formatLiveEntity, undeleted]
    rfl

/-! ### The overlay's view -/

variable [WireValue V]

theorem updatesFor_surface :
    invocation.surface.updatesFor id = (invocation.committed id).map CommittedUpdate.update := by
  rw [map_update_committed, surface, WriteSurface.updatesFor_record]
  rfl

theorem typeOf_surface : invocation.surface.typeOf id = lastType (invocation.committed id) := by
  have recorded := WriteSurface.typeOf_record invocation.action.updates .empty id
  rw [surface, recorded, lastType, committed_eq, List.getLast?_map, Option.map_map]
  exact Option.or_none

theorem overlayView_eq (wrote : invocation.committed id ≠ []) :
    invocation.overlayView id =
      if .put ∈ methodsOf (invocation.committed id) ∨ invocation.hostLive id = true then
        (((invocation.committed id).map CommittedUpdate.update).foldl applyFields
          (some (((invocation.readHost id).map EntityResponse.fields).getD []))).map
          fun fields => ((lastType (invocation.committed id)).getD "", fields)
      else none := by
  obtain ⟨last, ends⟩ := Option.isSome_iff_exists.mp (List.getLast?_isSome.mpr wrote)
  have lastWrite : ((invocation.surface.overlaySource invocation.readHost).updatesFor
      id).getLast? = some last.update := by
    change (invocation.surface.updatesFor id).getLast? = _
    rw [updatesFor_surface, List.getLast?_map, ends]
    rfl
  have typed : (invocation.surface.overlaySource invocation.readHost).typeOf id =
      some last.update.subjectType := by
    change invocation.surface.typeOf id = _
    rw [typeOf_surface, lastType, ends]
    rfl
  rw [overlayView, readOverlay_view _ id lastWrite typed]
  have puts : (∃ update ∈ (invocation.committed id).map CommittedUpdate.update,
      update.method = .put) ↔ .put ∈ methodsOf (invocation.committed id) := by
    simp [methodsOf]
  have host : ((invocation.surface.overlaySource invocation.readHost).readHost id).isSome =
      invocation.hostLive id := by
    change (invocation.readHost id).isSome = _
    rw [readHost, hostLive, Option.isSome_map]
  have folded : (invocation.surface.overlaySource invocation.readHost).updatesFor id =
      (invocation.committed id).map CommittedUpdate.update := updatesFor_surface invocation id
  have named : (lastType (invocation.committed id)).getD "" = last.update.subjectType := by
    rw [lastType, ends]
    rfl
  simp only [folded, puts, host, named]
  rfl

theorem overlayView_untouched (untouched : invocation.committed id = []) :
    invocation.overlayView id =
      (invocation.readHost id).map fun row => (row.type, row.fields) := by
  have nothing : (invocation.surface.overlaySource invocation.readHost).updatesFor id = [] := by
    change invocation.surface.updatesFor id = []
    rw [updatesFor_surface, untouched]
    rfl
  rw [overlayView, readOverlay, nothing]
  rfl

end Invocation

/-! ## What each interpreter shows -/

theorem afterLastDelete_eq_nil_iff {methods : List UpdateMethod} {last : UpdateMethod}
    (ends : methods.getLast? = some last) : afterLastDelete methods = [] ↔ last = .delete := by
  obtain ⟨rest, rfl⟩ := List.getLast?_eq_some_iff.mp ends
  by_cases deletes : last = .delete
  · simp [deletes]
  · simp [afterLastDelete_append deletes, deletes]

theorem mem_of_mem_afterLastDelete {methods : List UpdateMethod} {method : UpdateMethod}
    (member : method ∈ afterLastDelete methods) : method ∈ methods := by
  rw [afterLastDelete, List.mem_reverse] at member
  exact List.mem_reverse.mp ((List.takeWhile_sublist _).subset member)

theorem afterLastDelete_ne_nil_iff (methods : List UpdateMethod) :
    afterLastDelete methods ≠ [] ↔
      .put ∈ afterLastDelete methods ∨ .patch ∈ afterLastDelete methods := by
  constructor
  · intro kept
    obtain ⟨method, member⟩ := List.exists_mem_of_ne_nil _ kept
    cases method with
    | put => exact .inl member
    | patch => exact .inr member
    | delete =>
        rw [afterLastDelete, List.mem_reverse] at member
        simpa using List.mem_takeWhile_imp member
  · rintro (member | member) <;> exact List.ne_nil_of_mem member

theorem views_agree_iff {overlay server client : Option (String × Fields V)}
    (overlaid : ∀ shown ∈ overlay, ∀ folded ∈ client, shown.2 = folded.2)
    (replayed : ∀ shown ∈ server, ∀ folded ∈ client, shown.2 = folded.2) :
    overlay = server ∧ overlay = client ↔
      (overlay.isSome = client.isSome ∧ server.isSome = client.isSome) ∧
        (client.isSome = true →
          overlay.map Prod.fst = client.map Prod.fst ∧
            server.map Prod.fst = client.map Prod.fst) := by
  constructor
  · rintro ⟨rfl, rfl⟩
    simp
  · rintro ⟨⟨left, right⟩, types⟩
    cases client with
    | none =>
        rw [Option.isSome_none, Option.isSome_eq_false_iff, Option.isNone_iff_eq_none] at left right
        exact ⟨left.trans right.symm, left⟩
    | some folded =>
        obtain ⟨shown, rfl⟩ := Option.isSome_iff_exists.mp left
        obtain ⟨stored, rfl⟩ := Option.isSome_iff_exists.mp right
        have sameTypes := types rfl
        simp only [Option.map_some, Option.some.injEq] at sameTypes
        have overlayEq : shown = folded :=
          Prod.ext sameTypes.1 (overlaid shown rfl folded rfl)
        have serverEq : stored = folded :=
          Prod.ext sameTypes.2 (replayed stored rfl folded rfl)
        rw [overlayEq, serverEq]
        exact ⟨rfl, rfl⟩

namespace Invocation

variable (invocation : Invocation V) (id : String)

theorem clientView_isSome_iff :
    (invocation.clientView id).isSome = true ↔
      .put ∈ afterLastDelete (methodsOf (invocation.committed id)) ∨
        (.delete ∉ methodsOf (invocation.committed id) ∧ invocation.hostLive id = true) := by
  rw [clientView, fold_live_iff_of, hostLive_iff]

theorem serverView_isSome_iff (wrote : invocation.committed id ≠ []) :
    (invocation.serverView id).isSome = true ↔
      ¬ ((.delete ∈ methodsOf (invocation.committed id) ∧
            .patch ∉ afterLastDelete (methodsOf (invocation.committed id))) ∨
          (.delete ∉ methodsOf (invocation.committed id) ∧
            .patch ∉ methodsOf (invocation.committed id) ∧
            (invocation.replayStart id).deletedHlc.isSome = true)) := by
  rw [← foldl_deleted_iff, serverView_eq invocation id wrote]
  simp only
  split <;> simp_all

theorem overlayView_isSome_iff [WireValue V] (wrote : invocation.committed id ≠ []) :
    (invocation.overlayView id).isSome = true ↔
      afterLastDelete (methodsOf (invocation.committed id)) ≠ [] ∧
        (.put ∈ methodsOf (invocation.committed id) ∨ invocation.hostLive id = true) := by
  obtain ⟨last, ends⟩ := Option.isSome_iff_exists.mp (List.getLast?_isSome.mpr wrote)
  have lastWrite : ((invocation.committed id).map CommittedUpdate.update).getLast? =
      some last.update := by
    rw [List.getLast?_map, ends]
    rfl
  have lastMethod : (methodsOf (invocation.committed id)).getLast? = some last.update.method := by
    rw [methodsOf, List.getLast?_map, ends]
    rfl
  have folds := foldl_applyFields_isSome_iff lastWrite
    (some (((invocation.readHost id).map EntityResponse.fields).getD []))
  have tail := afterLastDelete_eq_nil_iff lastMethod
  rw [overlayView_eq invocation id wrote, ne_eq, tail]
  split
  · next shown => rw [Option.isSome_map, folds, and_iff_left shown]
  · next hidden => simp [hidden]

theorem types_agree_iff [WireValue V] (overlaid : (invocation.overlayView id).isSome = true)
    (stored : (invocation.serverView id).isSome = true)
    (folded : (invocation.clientView id).isSome = true) (wrote : invocation.committed id ≠ [])
    (named : .put ∉ methodsOf (invocation.committed id) →
      .patch ∈ methodsOf (invocation.committed id)) :
    ((invocation.overlayView id).map Prod.fst = (invocation.clientView id).map Prod.fst ∧
        (invocation.serverView id).map Prod.fst = (invocation.clientView id).map Prod.fst) ↔
      invocation.KeepsType id := by
  have overlayType : (invocation.overlayView id).map Prod.fst =
      lastType (invocation.committed id) := by
    obtain ⟨last, ends⟩ := Option.isSome_iff_exists.mp (List.getLast?_isSome.mpr wrote)
    rw [overlayView_eq invocation id wrote] at overlaid ⊢
    split at overlaid
    · next shown =>
      obtain ⟨fields, held⟩ := Option.isSome_iff_exists.mp (by simpa using overlaid)
      rw [if_pos shown, held, lastType, ends]
      rfl
    · cases overlaid
  have clientType : (invocation.clientView id).map Prod.fst =
      (putType (invocation.committed id)).or
        ((invocation.hostRow id).map EntityStore.EntityRow.type) := by
    rw [clientView] at folded ⊢
    cases row : (invocation.committed id).foldl Storage.applyCommitted
        ((invocation.hostRow id).map clientRow) with
    | none => simp [row, Storage.liveView] at folded
    | some entity =>
        have typed := fold_type _ _ row
        rw [Option.map_map] at typed
        rw [row, Storage.liveView] at folded
        split at folded
        · cases folded
        · next alive =>
          rw [Storage.liveView, if_neg alive]
          exact typed.symm
  have serverType : (invocation.serverView id).map Prod.fst =
      some (((putType (invocation.committed id)).or ((invocation.replayStart id).type.or
        (patchType (invocation.committed id)))).getD "unknown") := by
    rw [serverView_eq invocation id wrote] at stored ⊢
    simp only at stored ⊢
    split at stored
    · cases stored
    · next alive =>
      rw [if_neg alive, ← foldl_type]
      rfl
  rw [overlayType, clientType, serverType, KeepsType]
  cases puts : putType (invocation.committed id) with
  | some type => simp
  | none =>
      have patches := named ((putType_eq_none_iff _).mp puts)
      obtain ⟨first, patched⟩ := Option.ne_none_iff_exists'.mp
        (mt (patchType_eq_none_iff (invocation.committed id)).mp (not_not.mpr patches))
      simp only [Option.none_or, patched]
      rcases hostRow_cases invocation id with ⟨start, _⟩ | found
      · simp [start, EntityStore.Replay.initial]
      · rw [found]
        cases start : (invocation.replayStart id).type with
        | none => simp [EntityStore.Replay.row, start]
        | some type => simp [EntityStore.Replay.row, start]

theorem documents :
    SameDocument
      ((invocation.committed id).foldl EntityStore.applyCommitted (invocation.replayStart id))
      ((invocation.committed id).foldl Storage.applyCommitted
        ((invocation.hostRow id).map clientRow))
      (((invocation.committed id).map CommittedUpdate.update).foldl applyFields
        (some (((invocation.readHost id).map EntityResponse.fields).getD []))) := by
  apply (sameDocument_host invocation id).foldl
  · exact fun entry member => invocation.bufferWellFormed _ (mem_updates_of_committed member)
  · exact fun entry member => invocation.bufferStamped _ (mem_updates_of_committed member)

theorem clientView_row {invocation : Invocation V} {id : String} {folded : String × Fields V}
    (shows : folded ∈ invocation.clientView id) :
    ∃ row, (invocation.committed id).foldl Storage.applyCommitted
        ((invocation.hostRow id).map clientRow) = some row ∧
      row.deletedHlc = none ∧ folded.2 = row.fields := by
  rw [clientView, Option.mem_def] at shows
  cases found : (invocation.committed id).foldl Storage.applyCommitted
      ((invocation.hostRow id).map clientRow) with
  | none =>
      rw [found, Storage.liveView] at shows
      cases shows
  | some row =>
      rw [found, Storage.liveView] at shows
      split at shows
      · cases shows
      · next alive =>
        refine ⟨row, rfl, by simpa using alive, ?_⟩
        rw [← Option.some.inj shows]

section

variable (wrote : invocation.committed id ≠ [])
include wrote

theorem overlaid_document [WireValue V] :
    ∀ shown ∈ invocation.overlayView id, ∀ folded ∈ invocation.clientView id,
      shown.2 = folded.2 := by
  intro shown overlaid folded shows
  obtain ⟨row, found, live, same⟩ := clientView_row shows
  have held := (documents invocation id).overlaid row found live
  rw [overlayView_eq invocation id wrote, held, Option.mem_def] at overlaid
  split at overlaid
  · rw [← Option.some.inj overlaid, same]
  · cases overlaid

theorem replayed_document :
    ∀ stored ∈ invocation.serverView id, ∀ folded ∈ invocation.clientView id,
      stored.2 = folded.2 := by
  intro stored replayed folded shows
  obtain ⟨row, found, live, same⟩ := clientView_row shows
  have held := (documents invocation id).replayed row found live
  rw [serverView_eq invocation id wrote, Option.mem_def] at replayed
  simp only at replayed
  split at replayed
  · cases replayed
  · rw [← Option.some.inj replayed, same, ← held]

theorem liveness_agrees_iff [WireValue V] :
    ((invocation.overlayView id).isSome = (invocation.clientView id).isSome ∧
        (invocation.serverView id).isSome = (invocation.clientView id).isSome) ↔
      invocation.SharesLiveness id := by
  have someMethod : methodsOf (invocation.committed id) ≠ [] := by
    rw [methodsOf, ne_eq, List.map_eq_nil_iff]
    exact wrote
  have tombstone : invocation.hostLive id = true →
      (invocation.replayStart id).deletedHlc = none := tombstone_of_hostLive
  rw [@Bool.eq_iff_iff (invocation.overlayView id).isSome,
    @Bool.eq_iff_iff (invocation.serverView id).isSome,
    overlayView_isSome_iff invocation id wrote, serverView_isSome_iff invocation id wrote,
    clientView_isSome_iff, SharesLiveness, Option.isSome_iff_ne_none]
  by_cases deletes : .delete ∈ methodsOf (invocation.committed id)
  · have puts := @mem_of_mem_afterLastDelete (methodsOf (invocation.committed id)) .put
    have kept := afterLastDelete_ne_nil_iff (methodsOf (invocation.committed id))
    simp only [deletes, not_true, false_and, true_and, false_or, or_false]
    tauto
  · have kept := afterLastDelete_ne_nil_iff (methodsOf (invocation.committed id))
    rw [afterLastDelete_eq_self deletes] at kept ⊢
    simp only [deletes, not_false_eq_true, false_and, true_and, false_or, or_false,
      someMethod, ne_eq]
    by_cases put : .put ∈ methodsOf (invocation.committed id)
    · by_cases patch : .patch ∈ methodsOf (invocation.committed id) <;> simp [put, patch]
    · have patch : .patch ∈ methodsOf (invocation.committed id) :=
        (kept.mp someMethod).resolve_left put
      simp [put, patch]

theorem clientView_isSome_of_shares (shares : invocation.SharesLiveness id) :
    (invocation.clientView id).isSome = true ↔
      afterLastDelete (methodsOf (invocation.committed id)) ≠ [] := by
  have kept := afterLastDelete_ne_nil_iff (methodsOf (invocation.committed id))
  have someMethod : methodsOf (invocation.committed id) ≠ [] := by
    rw [methodsOf, ne_eq, List.map_eq_nil_iff]
    exact wrote
  rw [clientView_isSome_iff]
  rcases shares with ⟨undeleted, put, _⟩ | ⟨undeleted, _, live⟩ | ⟨deleted, gone | both⟩
  · rw [afterLastDelete_eq_self undeleted]
    exact iff_of_true (.inl put) someMethod
  · rw [afterLastDelete_eq_self undeleted]
    exact iff_of_true (.inr ⟨undeleted, live⟩) someMethod
  · rw [gone]
    simp [deleted]
  · exact iff_of_true (.inl both.1) (kept.mpr (.inl both.1))

end

theorem reads_values [WireValue V] (invocation : Invocation V) (id : String) :
    ∀ row, readOverlay (invocation.surface.overlaySource invocation.readHost) id = some row →
      row.inherited = [] := by
  intro row read
  apply inherited_readOverlay _ _ read
  · intro update member
    change update ∈ invocation.surface.updatesFor id at member
    rw [updatesFor_surface] at member
    obtain ⟨entry, listed, rfl⟩ := List.mem_map.mp member
    exact invocation.bufferStamped _ (mem_updates_of_committed listed)
  · intro held found
    obtain ⟨_, _, rfl⟩ := Option.map_eq_some_iff.mp found
    rfl

/-- A read through the overlay shows what the server and the clients will hold exactly
for the writes whose liveness and type the three interpreters share. -/
theorem seesOwnWrites_iff [WireValue V] (invocation : Invocation V) (id : String) :
    invocation.SeesOwnWrites id ↔ invocation.Reproduced id := by
  by_cases wrote : invocation.committed id = []
  · have client : invocation.clientView id =
        ((invocation.hostRow id).bind EntityStore.formatLiveEntity).map fun row =>
          (row.type, row.data) := by
      rw [clientView, wrote, List.foldl_nil]
      cases invocation.hostRow id with
      | none => rfl
      | some row =>
          rw [Option.map_some, Storage.liveView, Option.bind_some, EntityStore.formatLiveEntity,
            apply_ite (Option.map _)]
          rfl
    have overlay := overlayView_untouched invocation id wrote
    rw [readHost, Option.map_map] at overlay
    rw [SeesOwnWrites, overlay, serverView_untouched invocation id wrote, client, Reproduced]
    simp only [wrote, true_or, iff_true]
    exact ⟨reads_values invocation id, rfl, rfl⟩
  · rw [SeesOwnWrites, and_iff_right (reads_values invocation id),
      views_agree_iff (overlaid_document invocation id wrote)
        (replayed_document invocation id wrote), Reproduced, or_iff_right wrote,
      liveness_agrees_iff invocation id wrote]
    apply and_congr_right
    intro shares
    obtain ⟨overlay, server⟩ := (liveness_agrees_iff invocation id wrote).mpr shares
    rw [clientView_isSome_of_shares invocation id wrote shares]
    apply imp_congr_right
    intro kept
    have client := (clientView_isSome_of_shares invocation id wrote shares).mpr kept
    apply types_agree_iff invocation id (overlay.trans client) (server.trans client) client wrote
    intro noPut
    rcases (afterLastDelete_ne_nil_iff _).mp kept with put | patch
    · exact absurd (mem_of_mem_afterLastDelete put) noPut
    · exact mem_of_mem_afterLastDelete patch

end Invocation

/-! A stored note, deleted and then patched in one invocation: the overlay reads a note
of the patched field alone, the clients hold a deleted note and the server a note with
both fields. -/

instance : WireValue String where
  asString := some
  asStrings _ := none

private def noteLeaf (value updateId : String) : FieldValue String :=
  .leaf { value, updateId, hlc := some 1 }

private def noteWrite (id : String) (method : UpdateMethod) (fields : Fields String) :
    Update String where
  id := id
  subjectId := "note_a"
  subjectType := "note"
  method := method
  data := some fields

def deletedThenPatched : Invocation String where
  rows := fun id =>
    if id = "note_a" then
      some {
        id := "note_a"
        type := "note"
        data := [("title", noteLeaf "stored" "upd_stored")]
        createdHlc := 1
        updatedHlc := 1
        deletedHlc := none
        deletedBy := none
        lastGsn := 1 }
    else none
  log := []
  action := {
    id := "act_b"
    actorId := "user_a"
    hlc := 2
    gsn := 2
    updates := [noteWrite "upd_one" .delete [],
      noteWrite "upd_two" .patch [("done", noteLeaf "yes" "upd_two")]] }
  newer := by
    intro id row found
    split at found
    · rw [← Option.some.inj found]
      decide
    · cases found
  positive := by decide
  rowsWellFormed := by
    intro id row found
    split at found
    · rw [← Option.some.inj found]
      have stamped : isNanoId "upd_stored" = true := by decide
      exact ⟨stamped, trivial⟩
    · cases found
  logWellFormed := by simp
  bufferWellFormed := by
    intro update member
    simp only [List.mem_cons, List.not_mem_nil, or_false] at member
    rcases member with rfl | rfl
    · exact trivial
    · have stamped : isNanoId "upd_two" = true := by decide
      exact ⟨stamped, trivial⟩
  bufferStamped := by
    intro update member patch
    simp only [List.mem_cons, List.not_mem_nil, or_false] at member
    rcases member with rfl | rfl
    · cases patch
    · exact stampedPatch_single (by decide) (by decide)

theorem deleted_then_patched_reads_row :
    (deletedThenPatched.overlayView "note_a").map (fun row => row.2.map Prod.fst) =
        some ["done"] ∧
      deletedThenPatched.clientView "note_a" = none ∧
      (deletedThenPatched.serverView "note_a").map (fun row => row.2.map Prod.fst) =
        some ["title", "done"] ∧
      ¬ deletedThenPatched.SeesOwnWrites "note_a" := by
  have overlay : (deletedThenPatched.overlayView "note_a").map
      (fun row => row.2.map Prod.fst) = some ["done"] := by decide
  have client : deletedThenPatched.clientView "note_a" = none := by rfl
  refine ⟨overlay, client, by decide, ?_⟩
  rintro ⟨-, -, same⟩
  rw [same, client] at overlay
  cases overlay

end Ebb.Functions
