import Ebb.Server.ReadSchedule

namespace Ebb.Server.EntityStore

/-! The row that a delta of patches leaves in the table against the document merged in memory. -/

theorem encodeData_injective {left right : Fields V} (same : encodeData left = encodeData right) :
    left = right := by
  have decoded := congrArg decodeData same
  rw [decodeData_encodeData, decodeData_encodeData] at decoded
  exact Option.some.inj decoded

theorem safeChangedPaths_eq_false_iff {updates : List (CommittedUpdate V)} {base : Fields V}
    {acc : Replay V} (patched : Patched updates base acc) :
    safeChangedPaths acc.changed = false ↔
      ∃ top, carried updates top ≠ [] ∧ isFieldName top = false := by
  simp only [safeChangedPaths, List.all_eq_false]
  constructor
  · rintro ⟨path, changed, unsafeName⟩
    obtain ⟨top, value, member, keys, _, rfl⟩ := (patched.changed path).mp changed
    exact ⟨top, List.ne_nil_of_mem member, by simpa using unsafeName⟩
  · rintro ⟨top, carries, unsafeName⟩
    obtain ⟨⟨keys, touched⟩, _⟩ := patched.touched carries
    exact ⟨top :: keys, touched, by simp [unsafeName]⟩

section Delta

variable {row : StoredRow V} {base : Fields V} {updates : List (CommittedUpdate V)}

theorem data_handleMaterializedResult (entityId : String) {result : Replay V}
    (patched : Patched updates base result) (newer : row.lastGsn ≤ result.maxGsn) :
    ∃ written, handleMaterializedResult entityId result (some row) base = some written ∧
      written.data = if safeChangedPaths result.changed then
        SQLite.jsonSet row.data (((buildPatchFields result.changed.dedup base result.data).map
          SQLite.encodeAssignment).insertionSort SQLite.nameLe)
      else encodeData result.data := by
  rw [handleMaterializedResult]
  cases safe : safeChangedPaths result.changed with
  | true =>
      have advances : row.lastGsn ≤ (result.row entityId).patchMeta.lastGsn := newer
      rw [if_pos ⟨patched.dataMode, rfl, rfl⟩, SQLite.patchEntity, if_pos advances]
      exact ⟨_, rfl, rfl⟩
  | false =>
      have advances : row.lastGsn ≤ (result.row entityId).stored.lastGsn := newer
      rw [if_neg (by simp), SQLite.upsertEntity, if_pos advances]
      exact ⟨_, rfl, rfl⟩

/-- A delta of patches leaves the merged fields in the row exactly when some patched name forces
the whole document to be written, or the patches keep every map of the base. -/
theorem holds_handleMaterializedResult_iff (entityId : String) (stored : row.data = encodeData base)
    (patches : ∀ committed ∈ updates, committed.update.method = .patch)
    (keyed : ∀ committed ∈ updates, Keyed committed)
    (newer : ∃ committed ∈ updates, row.lastGsn ≤ committed.gsn) :
    (∃ written, handleMaterializedResult entityId (updates.foldl applyCommitted (.initial base))
        (some row) base = some written ∧
      Holds written (updates.foldl applyCommitted (.initial base)).data) ↔
    (∃ top, carried updates top ≠ [] ∧ isFieldName top = false) ∨ WritesBack base updates := by
  have noPut : ∀ committed ∈ updates, committed.update.method ≠ .put := by
    intro committed member isPut
    rw [patches committed member] at isPut
    cases isPut
  have patched := patched_foldl noPut keyed base
  have later : row.lastGsn ≤ (updates.foldl applyCommitted (.initial base)).maxGsn := by
    obtain ⟨committed, member, older⟩ := newer
    exact older.trans ((gsn_le_maxGsn (.initial base)).2 committed member)
  obtain ⟨written, writes, document⟩ := data_handleMaterializedResult entityId patched later
  rw [← safeChangedPaths_eq_false_iff patched]
  have onlyWritten : ∀ other, handleMaterializedResult entityId
      (updates.foldl applyCommitted (.initial base)) (some row) base = some other →
        other = written := fun other equal => Option.some.inj (equal.symm.trans writes)
  cases safe : safeChangedPaths (updates.foldl applyCommitted (.initial base)).changed with
  | false =>
      rw [safe] at document
      exact iff_of_true ⟨written, writes, _, document, SameFields.refl _⟩ (.inl rfl)
  | true =>
      obtain ⟨next, assigned, same⟩ := sameFields_jsonSet_iff noPut keyed
        (rfl : updates.foldl applyCommitted (.initial base) = _)
      rw [safe, if_pos rfl, stored, assigned] at document
      simp only [Bool.true_eq_false, false_or, ← same]
      constructor
      · rintro ⟨other, equal, fields, encoded, holds⟩
        rw [onlyWritten other equal, document] at encoded
        rwa [encodeData_injective encoded]
      · intro holds
        exact ⟨written, writes, next, document, holds⟩

end Delta

/-! ### A map replaced by a leaf and by a map again -/

def runLeaf (value : String) (hlc : Nat) : FieldValue String :=
  .leaf { value, updateId := "upd_1", hlc := some hlc }

def storedRuns : Fields String :=
  [("content", .map [("run_a", runLeaf "a" 1), ("run_b", runLeaf "b" 1)])]

def documentRow : StoredRow String where
  id := "doc_1"
  type := "doc"
  data := encodeData storedRuns
  createdHlc := 1
  updatedHlc := 1
  deletedHlc := none
  deletedBy := none
  lastGsn := 1

def contentPatch (gsn : Nat) (content : FieldValue String) : CommittedUpdate String where
  gsn := gsn
  hlc := gsn
  actorId := "usr_1"
  update := { id := "upd_2", subjectId := "doc_1", subjectType := "doc", method := .patch,
              data := some [("content", content)] }

def editedRun : FieldValue String := .map [("run_a", runLeaf "c" 5)]

theorem mem_storedRuns {top : String} {entries : Fields String}
    (found : storedRuns.lookup top = some (.map entries)) :
    top = "content" ∧ entries = [("run_a", runLeaf "a" 1), ("run_b", runLeaf "b" 1)] := by
  have member := mem_of_lookup_eq_some found
  simpa [storedRuns] using member

theorem keyed_contentPatch {gsn : Nat} {content : FieldValue String}
    (stamped : (FieldMerge.stamp "upd_2" content).Keyed) : Keyed (contentPatch gsn content) := by
  simp [Keyed, stampedFields, contentPatch, readFields, FieldMerge.stampEntries, FieldValue.Keyed,
    fieldsKeyed, stamped]

theorem keyed_editedRun : (FieldMerge.stamp "upd_2" editedRun).Keyed := by
  simp [editedRun, FieldMerge.stamp, FieldMerge.stampEntries, runLeaf, FieldValue.Keyed,
    fieldsKeyed]

theorem holds_handleMaterializedResult_editedRun :
    ∃ written, handleMaterializedResult "doc_1"
        ([contentPatch 2 editedRun].foldl applyCommitted (.initial storedRuns))
        (some documentRow) storedRuns = some written ∧
      Holds written ([contentPatch 2 editedRun].foldl applyCommitted (.initial storedRuns)).data := by
  apply (holds_handleMaterializedResult_iff "doc_1" rfl ?_ ?_ ?_).mpr
  · refine .inr fun top entries found => .inl ?_
    obtain ⟨rfl, -⟩ := mem_storedRuns found
    have single : carried [contentPatch 2 editedRun] "content" = [editedRun] := rfl
    rw [single]
    simp [editedRun, isMapField]
  · simp [contentPatch]
  · simpa using keyed_contentPatch keyed_editedRun
  · exact ⟨_, List.mem_cons_self, by decide⟩

/-- The field is written as a leaf and then as a map with one of the two runs. -/
def rewrittenContent : List (CommittedUpdate String) :=
  [contentPatch 2 (runLeaf "text" 4), contentPatch 3 editedRun]

/-- The merge has lost the second run, the table keeps it. -/
theorem not_holds_rewrittenContent :
    ¬ ∃ written, handleMaterializedResult "doc_1"
        (rewrittenContent.foldl applyCommitted (.initial storedRuns)) (some documentRow)
        storedRuns = some written ∧
      Holds written (rewrittenContent.foldl applyCommitted (.initial storedRuns)).data := by
  rintro ⟨written, writes, fields, encoded, holds⟩
  have kept : (decodeData written.data).bind (fun fields => nodeAt (fields.lookup "content")
      ["run_b"]) = some (.leaf { value := "b", updateId := "upd_1", hlc := some 1 }) := by
    cases writes
    rfl
  have lost : nodeAt (((rewrittenContent.foldl applyCommitted (.initial storedRuns)).data).lookup
      "content") ["run_b"] = none := rfl
  have same := holds ["content", "run_b"]
  rw [at_map_cons, at_map_cons, lost] at same
  rw [encoded, decodeData_encodeData] at kept
  exact Option.some_ne_none _ (kept.symm.trans same)

end Ebb.Server.EntityStore
