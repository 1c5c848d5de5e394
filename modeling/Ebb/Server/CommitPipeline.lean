import Ebb.Server.Trackers

namespace Ebb.Server

/-! The open batches of the Writer's commit pipeline, oldest claim first. -/

/-- The parts of a prepared Action that ordering, deduplication and dirty marking
read. `movesGroups` says that its planned cache mutations hold a membership or
relationship move. -/
structure PreparedAction where
  id : String
  affectedEntities : List String
  movesGroups : Bool
deriving DecidableEq

/-- The phases a batch is observed in between two steps of the Writer. -/
inductive Phase where
  | prepared
  | committing
  | committed
deriving DecidableEq

structure Batch where
  ref : Nat
  gsnStart : Nat
  prepared : List PreparedAction
  generation : Nat
  phase : Phase
deriving DecidableEq

namespace Batch

def gsnEnd (batch : Batch) : Nat := batch.gsnStart + batch.prepared.length - 1

def actionIds (batch : Batch) : List String := batch.prepared.map PreparedAction.id

def entities (batch : Batch) : List String :=
  batch.prepared.flatMap PreparedAction.affectedEntities

def movesGroups (batch : Batch) : Bool := batch.prepared.any PreparedAction.movesGroups

end Batch

/-- The Actions of a range under the GSNs they are written at. -/
def gsnEntries : Nat → List PreparedAction → List (Nat × PreparedAction)
  | _, [] => []
  | gsn, action :: rest => (gsn, action) :: gsnEntries (gsn + 1) rest

variable {prepared : List PreparedAction}

theorem mem_gsnEntries {gsnStart : Nat} {entry : Nat × PreparedAction}
    (member : entry ∈ gsnEntries gsnStart prepared) :
    entry.2 ∈ prepared ∧ gsnStart ≤ entry.1 ∧ entry.1 < gsnStart + prepared.length := by
  induction prepared generalizing gsnStart with
  | nil => cases member
  | cons action rest induction =>
      rcases List.mem_cons.mp member with equal | member
      · subst equal
        simp
      · obtain ⟨inRest, lower, upper⟩ := induction member
        rw [List.length_cons]
        exact ⟨List.mem_cons_of_mem _ inRest, by omega, by omega⟩

theorem mem_prepared_of_gsnEntries {gsnStart : Nat} {prepared : List PreparedAction}
    {action : PreparedAction} (member : action ∈ prepared) :
    ∃ gsn, (gsn, action) ∈ gsnEntries gsnStart prepared := by
  induction prepared generalizing gsnStart with
  | nil => cases member
  | cons head rest induction =>
      rcases List.mem_cons.mp member with equal | member
      · exact ⟨gsnStart, equal ▸ List.mem_cons_self⟩
      · obtain ⟨gsn, listed⟩ := @induction (gsnStart + 1) member
        exact ⟨gsn, List.mem_cons_of_mem _ listed⟩

theorem gsnEntries_inj {gsnStart : Nat} (nodup : (prepared.map PreparedAction.id).Nodup)
    {left right : Nat × PreparedAction} (leftMember : left ∈ gsnEntries gsnStart prepared)
    (rightMember : right ∈ gsnEntries gsnStart prepared) (same : left.2.id = right.2.id) :
    left.1 = right.1 := by
  induction prepared generalizing gsnStart with
  | nil => cases leftMember
  | cons head rest induction =>
      obtain ⟨headFresh, restNodup⟩ := List.nodup_cons.mp nodup
      have listed : ∀ {entry}, entry ∈ gsnEntries (gsnStart + 1) rest → entry.2.id ≠ head.id :=
        fun member equal => headFresh (equal ▸ List.mem_map_of_mem (mem_gsnEntries member).1)
      rcases List.mem_cons.mp leftMember with leftHead | leftMember <;>
        rcases List.mem_cons.mp rightMember with rightHead | rightMember
      · rw [leftHead, rightHead]
      · subst leftHead
        exact absurd same.symm (listed rightMember)
      · subst rightHead
        exact absurd same (listed leftMember)
      · exact induction restNodup leftMember rightMember

namespace CommitPipeline

def get? (batches : List Batch) (ref : Nat) : Option Batch :=
  batches.find? fun batch => batch.ref = ref

def setPhase (batches : List Batch) (ref : Nat) (phase : Phase) : List Batch :=
  batches.map fun batch => if batch.ref = ref then { batch with phase } else batch

def prune (batches : List Batch) (ref : Nat) : List Batch :=
  batches.filter fun batch => batch.ref ≠ ref

def firstPrepared (batches : List Batch) : Option Batch :=
  batches.find? fun batch => batch.phase = .prepared

/-- The open batches ahead of `ref` that may still abandon. -/
def unresolvedBefore (batches : List Batch) (ref : Nat) : List Batch :=
  (batches.takeWhile fun batch => batch.ref ≠ ref).filter fun batch =>
    batch.phase ≠ .committed

/-- The first prepared batch, unless a range ahead of it that may still abandon
planned a move. -/
def readyBatch (batches : List Batch) : Option Batch :=
  (firstPrepared batches).filter fun batch =>
    (unresolvedBefore batches batch.ref).all fun ahead => !ahead.movesGroups

variable {batches : List Batch} {batch : Batch}

theorem get?_spec {ref : Nat} (found : get? batches ref = some batch)
    : batch ∈ batches ∧ batch.ref = ref :=
  ⟨List.mem_of_find?_eq_some found, by simpa using List.find?_some found⟩

theorem readyBatch_spec (ready : readyBatch batches = some batch)
    : batch ∈ batches ∧ batch.phase = .prepared := by
  have first : firstPrepared batches = some batch := (Option.filter_eq_some_iff.mp ready).1
  exact ⟨List.mem_of_find?_eq_some first, by simpa using List.find?_some first⟩

theorem mem_setPhase {ref : Nat} {phase : Phase} (member : batch ∈ setPhase batches ref phase) :
    ∃ old ∈ batches, batch = if old.ref = ref then { old with phase } else old := by
  obtain ⟨old, inBatches, equal⟩ := List.mem_map.mp member
  exact ⟨old, inBatches, equal.symm⟩

theorem mem_prune {ref : Nat} : batch ∈ prune batches ref ↔ batch ∈ batches ∧ batch.ref ≠ ref := by
  simp [prune]

end CommitPipeline

end Ebb.Server
