import Ebb.Server.EntityStore
import Ebb.Storage.Materialize
import Mathlib.Data.List.Induction
import Mathlib.Tactic.Tauto

namespace Ebb.Server

/-! The server's replay compared with the client's fold over the same committed
Updates. The two differ on what follows a delete: the client revives a row only
by a put and the server only by a patch. -/

def methodsOf (committed : List (CommittedUpdate V)) : List UpdateMethod :=
  committed.map fun entry => entry.update.method

/-- The part of a history after its last delete, or all of it without one. -/
def afterLastDelete (methods : List UpdateMethod) : List UpdateMethod :=
  (methods.reverse.takeWhile (· ≠ .delete)).reverse

/-- The histories on which both interpreters agree. -/
def AgreeingHistory (methods : List UpdateMethod) : Prop :=
  methods = [] ∨
  (.delete ∉ methods ∧ .put ∈ methods) ∨
  (.delete ∈ methods ∧
    (.put ∈ afterLastDelete methods ↔ .patch ∈ afterLastDelete methods))

/-- Under a name of `Object.prototype` which the live row it is merged into does not hold, no
patch brings a leaf of time zero, and under `__proto__` it brings nothing. -/
def KeepsNames (committed : List (CommittedUpdate V)) : Prop :=
  ∀ before entry after row, committed = before ++ entry :: after →
    entry.update.method = .patch → before.foldl Storage.applyCommitted none = some row →
      row.deletedHlc = none →
        OwnsNames (some (.map row.fields)) (.map (readFields entry.update))

@[simp] theorem afterLastDelete_append_delete (methods : List UpdateMethod) :
    afterLastDelete (methods ++ [.delete]) = [] := by
  simp [afterLastDelete]

theorem afterLastDelete_append {method : UpdateMethod} (kept : method ≠ .delete)
    (methods : List UpdateMethod) :
    afterLastDelete (methods ++ [method]) = afterLastDelete methods ++ [method] := by
  simp [afterLastDelete, kept]

theorem afterLastDelete_eq_self {methods : List UpdateMethod} (absent : .delete ∉ methods) :
    afterLastDelete methods = methods := by
  rw [afterLastDelete, List.takeWhile_eq_self_iff.mpr, List.reverse_reverse]
  intro method member
  rw [List.mem_reverse] at member
  simpa using fun equal : method = .delete => absent (equal ▸ member)

variable (committed : List (CommittedUpdate V))

/-! ## Liveness of the two interpreters -/

theorem replay_deleted_iff :
    ((committed.foldl EntityStore.applyCommitted (.initial [])).deletedHlc.isSome = true) ↔
      .delete ∈ methodsOf committed ∧ .patch ∉ afterLastDelete (methodsOf committed) := by
  induction committed using List.reverseRecOn with
  | nil => simp [EntityStore.Replay.initial, methodsOf]
  | append_singleton rest last induction =>
      rw [List.foldl_concat]
      simp only [methodsOf, List.map_append, List.map_cons, List.map_nil] at induction ⊢
      cases method : last.update.method with
      | put =>
          rw [afterLastDelete_append (by decide)]
          simpa [EntityStore.applyCommitted, method, EntityStore.applyPut] using induction
      | patch =>
          rw [afterLastDelete_append (by decide)]
          simp [EntityStore.applyCommitted, method, EntityStore.applyPatch]
      | delete =>
          simp [EntityStore.applyCommitted, method, EntityStore.applyDelete]

theorem fold_live_iff :
    (Storage.liveView (committed.foldl Storage.applyCommitted none)).isSome = true ↔
      .put ∈ afterLastDelete (methodsOf committed) := by
  induction committed using List.reverseRecOn with
  | nil => simp [Storage.liveView, methodsOf, afterLastDelete]
  | append_singleton rest last induction =>
      rw [List.foldl_concat]
      simp only [methodsOf, List.map_append, List.map_cons, List.map_nil] at induction ⊢
      generalize rest.foldl Storage.applyCommitted none = entity at induction ⊢
      cases method : last.update.method with
      | put =>
          rw [afterLastDelete_append (by decide)]
          simp [Storage.applyCommitted, Storage.applyUpdate, method, Storage.liveView]
      | patch =>
          rw [afterLastDelete_append (by decide), List.mem_append]
          cases entity with
          | none =>
              simpa [Storage.applyCommitted, Storage.applyUpdate, method, Storage.liveView]
                using induction
          | some entity =>
              cases deleted : entity.deletedHlc <;>
                simpa [Storage.applyCommitted, Storage.applyUpdate, method, Storage.liveView,
                  deleted] using induction
      | delete =>
          cases entity <;>
            simp [Storage.applyCommitted, Storage.applyUpdate, method, Storage.liveView]

/-! ## The shared document -/

/-- While the client's row is live, the server's accumulators hold its document. -/
structure Mirrors (acc : EntityStore.Replay V) (entity : Option (Storage.Entity V)) : Prop where
  wellFormed : fieldsWellFormed acc.data
  type : ∀ row, entity = some row → acc.type = some row.type
  data : ∀ row, entity = some row → row.deletedHlc = none → acc.data = row.fields

theorem mirrors_initial : Mirrors (.initial ([] : Fields V)) none where
  wellFormed := trivial
  type := by simp
  data := by simp

theorem Mirrors.step {acc : EntityStore.Replay V} {entity : Option (Storage.Entity V)}
    (mirrors : Mirrors acc entity) {committed : CommittedUpdate V}
    (wellFormed : committed.update.WellFormed)
    (keyed : (FieldValue.map (readFields committed.update)).Keyed)
    (owned : committed.update.method = .patch → ∀ row, entity = some row →
      row.deletedHlc = none →
        OwnsNames (some (.map row.fields)) (.map (readFields committed.update))) :
    Mirrors (EntityStore.applyCommitted acc committed)
      (Storage.applyCommitted entity committed) := by
  have stamped : EntityStore.stampedFields committed.update = readFields committed.update :=
    FieldMerge.stampEntries_eq_self committed.update.id wellFormed
  cases method : committed.update.method with
  | put =>
      simp only [EntityStore.applyCommitted, Storage.applyCommitted, Storage.applyUpdate,
        method, EntityStore.applyPut, stamped]
      refine ⟨wellFormed, ?_, ?_⟩
      · rintro row equal
        cases equal
        rfl
      · rintro row equal -
        cases equal
        rfl
  | patch =>
      have merged := FieldMerge.mergeMaps_wellFormed mirrors.wellFormed wellFormed
      simp only [EntityStore.applyCommitted, Storage.applyCommitted, Storage.applyUpdate,
        method, EntityStore.applyPatch, stamped, EntityStore.foldl_mergeField_eq]
      cases entity with
      | none => exact ⟨merged.2, by simp, by simp⟩
      | some row =>
          have sameType := mirrors.type row rfl
          refine ⟨merged.2, ?_, ?_⟩
          · intro next equal
            cases deleted : row.deletedHlc <;> simp [deleted] at equal <;>
              simp [← equal, sameType]
          · intro next equal live
            cases deleted : row.deletedHlc with
            | none =>
                simp only [deleted, Option.isSome_none, if_false, Bool.false_eq_true,
                  Option.some.injEq] at equal
                have document := mirrors.data row rfl deleted
                rw [← equal, FieldMerge.mergeMaps_eq_mergeEntries mirrors.wellFormed wellFormed
                  keyed (document ▸ owned method row rfl deleted), document]
                rfl
            | some hlc =>
                simp only [deleted, Option.isSome_some, if_true, Option.some.injEq] at equal
                rw [← equal, deleted] at live
                cases live
  | delete =>
      simp only [EntityStore.applyCommitted, Storage.applyCommitted, Storage.applyUpdate,
        method, EntityStore.applyDelete]
      cases entity with
      | none => exact ⟨mirrors.wellFormed, by simp, by simp⟩
      | some row =>
          refine ⟨mirrors.wellFormed, ?_, ?_⟩
          · rintro next equal
            cases equal
            exact mirrors.type row rfl
          · rintro next equal live
            cases equal
            cases live

theorem mirrors_replay {committed : List (CommittedUpdate V)}
    (wellFormed : ∀ entry ∈ committed, entry.update.WellFormed)
    (keyed : ∀ entry ∈ committed, (FieldValue.map (readFields entry.update)).Keyed)
    (names : KeepsNames committed) :
    Mirrors (committed.foldl EntityStore.applyCommitted (.initial []))
      (committed.foldl Storage.applyCommitted none) := by
  induction committed using List.reverseRecOn with
  | nil => exact mirrors_initial
  | append_singleton rest last induction =>
      have here : last ∈ rest ++ [last] := List.mem_append_right _ (List.mem_singleton_self last)
      have earlier : KeepsNames rest := by
        intro before entry after row split
        apply names before entry (after ++ [last]) row
        rw [split, List.append_assoc, List.cons_append]
      have mirrors := induction
        (fun entry member => wellFormed entry (List.mem_append_left _ member))
        (fun entry member => keyed entry (List.mem_append_left _ member)) earlier
      rw [List.foldl_concat, List.foldl_concat]
      exact mirrors.step (wellFormed last here) (keyed last here)
        fun patch row folded => names rest last [] row rfl patch folded

/-! ## Agreement -/

/-- The server's live view of a history, with the empty history absent. -/
private def replayView (committed : List (CommittedUpdate V)) : Option (String × Fields V) :=
  match committed with
  | [] => none
  | entry :: rest =>
      let result := (entry :: rest).foldl EntityStore.applyCommitted (.initial [])
      if result.deletedHlc.isSome then none
      else some (result.type.getD "unknown", result.data)

private theorem replayView_isSome_iff :
    (replayView committed).isSome = true ↔
      committed ≠ [] ∧ (.delete ∉ methodsOf committed ∨
        .patch ∈ afterLastDelete (methodsOf committed)) := by
  cases committed with
  | nil => simp [replayView]
  | cons entry rest =>
      have deleted := replay_deleted_iff (entry :: rest)
      simp only [replayView]
      split
      · next holds => simpa using not_or.mpr ⟨not_not.mpr (deleted.mp holds).1,
          (deleted.mp holds).2⟩
      · next alive =>
          have undeleted := mt deleted.mpr alive
          simp only [Option.isSome_some, true_iff, ne_eq, reduceCtorEq, not_false_eq_true,
            true_and]
          tauto

private theorem views_eq_of_live {committed : List (CommittedUpdate V)}
    (wellFormed : ∀ entry ∈ committed, entry.update.WellFormed)
    (keyed : ∀ entry ∈ committed, (FieldValue.map (readFields entry.update)).Keyed)
    (names : KeepsNames committed) {left right : String × Fields V} (server : replayView committed = some left)
    (client : Storage.liveView (committed.foldl Storage.applyCommitted none) = some right) :
    left = right := by
  have mirrors := mirrors_replay wellFormed keyed names
  cases committed with
  | nil => cases server
  | cons entry rest =>
      simp only [replayView] at server
      generalize (entry :: rest).foldl EntityStore.applyCommitted (.initial []) = acc
        at server mirrors
      generalize (entry :: rest).foldl Storage.applyCommitted none = entity at client mirrors
      split at server
      · cases server
      cases entity with
      | none => cases client
      | some row =>
          simp only [Storage.liveView] at client
          split at client
          · cases client
          next alive =>
            have live : row.deletedHlc = none := by simpa using alive
            rw [← Option.some.inj server, ← Option.some.inj client,
              mirrors.type row rfl, mirrors.data row rfl live]
            rfl

private theorem liveness_agrees_iff_agreeing :
    (replayView committed).isSome =
        (Storage.liveView (committed.foldl Storage.applyCommitted none)).isSome ↔
      AgreeingHistory (methodsOf committed) := by
  have empty : committed = [] ↔ methodsOf committed = [] := by simp [methodsOf]
  rw [Bool.eq_iff_iff, replayView_isSome_iff, fold_live_iff, ne_eq, empty, AgreeingHistory]
  by_cases deletes : .delete ∈ methodsOf committed
  · have nonempty : methodsOf committed ≠ [] := List.ne_nil_of_mem deletes
    simp only [nonempty, deletes, not_true, false_or, true_and, false_and, not_false_eq_true]
    exact Iff.comm
  · rw [afterLastDelete_eq_self deletes]
    by_cases nothing : methodsOf committed = []
    · simp [nothing]
    · simp [nothing, deletes]

private def noteUpdate (id : String) (method : UpdateMethod) (fields : Fields Nat) : Update Nat where
  id := id
  subjectId := "note_a"
  subjectType := "note"
  method := method
  data := some fields

private def noteAction (gsn : Nat) (method : UpdateMethod) (fields : Fields Nat := []) :
    Action Nat where
  id := "act_" ++ toString gsn
  actorId := "user_a"
  hlc := gsn
  gsn := gsn
  updates := [noteUpdate "upd_a" method fields]

/-- A field of a note under the given name, its leaf without a timestamp. -/
private def unstamped (name : String) : Fields Nat :=
  [(name, .leaf { value := 0, updateId := "upd_a", hlc := none })]

private theorem noteAction_wellFormed {gsn : Nat} {method : UpdateMethod} {fields : Fields Nat}
    (wellFormed : fieldsWellFormed fields) :
    ∀ update ∈ (noteAction gsn method fields).updates, update.WellFormed := by
  intro update member
  rw [List.mem_singleton.mp member]
  exact wellFormed

private theorem noteAction_keyed {gsn : Nat} {method : UpdateMethod} {fields : Fields Nat}
    (keyed : (FieldValue.map fields).Keyed) :
    ∀ update ∈ (noteAction gsn method fields).updates,
      (FieldValue.map (readFields update)).Keyed := by
  intro update member
  rw [List.mem_singleton.mp member]
  exact keyed

def putAgainLog : CommittedLog Nat where
  actions := [noteAction 1 .put, noteAction 2 .delete, noteAction 3 .put]
  positive := by decide
  ordered := by decide
  wellFormed := by
    simp only [List.forall_mem_cons]
    exact ⟨noteAction_wellFormed trivial, noteAction_wellFormed trivial,
      noteAction_wellFormed trivial, nofun⟩
  keyed := by
    have nothing : (FieldValue.map ([] : Fields Nat)).Keyed := ⟨List.nodup_nil, trivial⟩
    simp only [List.forall_mem_cons]
    exact ⟨noteAction_keyed nothing, noteAction_keyed nothing, noteAction_keyed nothing, nofun⟩

def constructorLog : CommittedLog Nat where
  actions := [noteAction 1 .put, noteAction 2 .patch (unstamped "constructor")]
  positive := by decide
  ordered := by decide
  wellFormed := by
    have nanoId : isNanoId "upd_a" = true := by decide
    simp only [List.forall_mem_cons]
    exact ⟨noteAction_wellFormed trivial, noteAction_wellFormed ⟨nanoId, trivial⟩, nofun⟩
  keyed := by
    simp only [List.forall_mem_cons]
    exact ⟨noteAction_keyed ⟨List.nodup_nil, trivial⟩,
      noteAction_keyed ⟨List.nodup_singleton _, trivial, trivial⟩, nofun⟩

end Ebb.Server
