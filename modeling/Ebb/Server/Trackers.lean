import Ebb.Foundation.OrderedMap
import Mathlib.Tactic.Tauto

namespace Ebb.Server

/-! The in-memory tables that the Writer shares with the rest of the server: the
GSN counter, the resolution frontier, the in-flight Action ids and the dirty
marks. -/

namespace GsnCounter

/-- Claim `count` GSNs: the first and last of the range, and the new counter. -/
def claimGsnRange (count counter : Nat) : (Nat × Nat) × Nat :=
  let gsnEnd := counter + count
  ((gsnEnd - count + 1, gsnEnd), gsnEnd)

def reconcile (counter gsn : Nat) : Nat := if gsn > counter then gsn else counter

theorem le_reconcile (counter gsn : Nat) :
    counter ≤ reconcile counter gsn ∧ gsn ≤ reconcile counter gsn := by
  unfold reconcile
  split <;> omega

end GsnCounter

/-! ## Resolution frontier -/

/-- The watermark and the reorder buffer of resolved ranges, one row per first
GSN. -/
structure WatermarkTracker where
  watermark : Nat
  ranges : List (Nat × Nat)
deriving DecidableEq

namespace WatermarkTracker

def markRangeCommitted (first last : Nat) (tracker : WatermarkTracker) : WatermarkTracker :=
  { tracker with ranges := setEntry first last tracker.ranges }

def pruneResolved (ranges : List (Nat × Nat)) (watermark : Nat) : List (Nat × Nat) :=
  if watermark ≤ 0 then ranges else ranges.filter fun range => watermark < range.2

/-- The row covering `gsn`: the one with the largest first GSN at or below it, if
that row reaches it. -/
def rangeCovering (ranges : List (Nat × Nat)) (gsn : Nat) : Option (Nat × Nat) :=
  match ((ranges.map Prod.fst).filter (· < gsn + 1)).max? with
  | none => none
  | some first =>
      match ranges.lookup first with
      | some last => if gsn ≤ last then some (first, last) else none
      | none => none

/-- Advance over covering rows, at most `fuel` times. Every row is consumed once,
so the number of rows is enough. -/
def doAdvance : Nat → WatermarkTracker → WatermarkTracker
  | 0, tracker => tracker
  | fuel + 1, tracker =>
      let ranges := pruneResolved tracker.ranges tracker.watermark
      match rangeCovering ranges (tracker.watermark + 1) with
      | some (_, last) => doAdvance fuel { watermark := last, ranges }
      | none => { tracker with ranges }

def advanceWatermark (tracker : WatermarkTracker) : WatermarkTracker :=
  doAdvance (tracker.ranges.length + 1) tracker

/-- A GSN is resolved when the frontier passed it or a buffered row covers it. -/
def Resolved (tracker : WatermarkTracker) (gsn : Nat) : Prop :=
  gsn ≤ tracker.watermark ∨ ∃ range ∈ tracker.ranges, range.1 ≤ gsn ∧ gsn ≤ range.2

theorem resolved_mark {first last : Nat} {tracker : WatermarkTracker} {gsn : Nat}
    (resolved : (tracker.markRangeCommitted first last).Resolved gsn) :
    tracker.Resolved gsn ∨ (first ≤ gsn ∧ gsn ≤ last) := by
  rcases resolved with passed | ⟨range, member, covers⟩
  · exact .inl (.inl passed)
  · rcases mem_setEntry member with equal | member
    · subst equal
      exact .inr covers
    · exact .inl (.inr ⟨range, member, covers⟩)

private theorem mem_of_mem_pruneResolved {ranges : List (Nat × Nat)} {watermark : Nat}
    {range : Nat × Nat} (member : range ∈ pruneResolved ranges watermark) :
    range ∈ ranges := by
  unfold pruneResolved at member
  split at member
  · exact member
  · exact List.mem_of_mem_filter member

theorem rangeCovering_spec {ranges : List (Nat × Nat)} {gsn : Nat} {range : Nat × Nat}
    (covering : rangeCovering ranges gsn = some range) :
    range ∈ ranges ∧ range.1 ≤ gsn ∧ gsn ≤ range.2 := by
  unfold rangeCovering at covering
  split at covering
  · cases covering
  · next first found =>
      have below : first < gsn + 1 := by
        simpa using (List.mem_filter.mp (List.max?_mem found)).2
      split at covering
      · next last row =>
          split at covering
          · next reaches =>
              cases covering
              exact ⟨mem_of_lookup_eq_some row, Nat.lt_succ_iff.mp below, reaches⟩
          · cases covering
      · cases covering

theorem doAdvance_spec (fuel : Nat) (tracker : WatermarkTracker) :
    tracker.watermark ≤ (doAdvance fuel tracker).watermark ∧
      ∀ gsn, (doAdvance fuel tracker).Resolved gsn → tracker.Resolved gsn := by
  induction fuel generalizing tracker with
  | zero => exact ⟨Nat.le_refl _, fun _ resolved => resolved⟩
  | succ fuel induction =>
      simp only [doAdvance]
      split
      · next last covering =>
          have spec := rangeCovering_spec covering
          have step := induction
            { watermark := last, ranges := pruneResolved tracker.ranges tracker.watermark }
          have forward : tracker.watermark ≤ last := Nat.le_of_succ_le spec.2.2
          refine ⟨Nat.le_trans forward step.1, fun gsn resolved => ?_⟩
          · rcases step.2 gsn resolved with passed | ⟨range, member, covers⟩
            · by_cases reached : gsn ≤ tracker.watermark
              · exact .inl reached
              · exact .inr ⟨_, mem_of_mem_pruneResolved spec.1,
                  Nat.le_trans spec.2.1 (Nat.lt_of_not_le reached), passed⟩
            · exact .inr ⟨range, mem_of_mem_pruneResolved member, covers⟩
      · refine ⟨Nat.le_refl _, fun gsn resolved => ?_⟩
        rcases resolved with passed | ⟨range, member, covers⟩
        · exact .inl passed
        · exact .inr ⟨range, mem_of_mem_pruneResolved member, covers⟩

theorem advanceWatermark_spec (tracker : WatermarkTracker) :
    tracker.watermark ≤ tracker.advanceWatermark.watermark ∧
      ∀ gsn, tracker.advanceWatermark.Resolved gsn → tracker.Resolved gsn :=
  doAdvance_spec _ tracker

end WatermarkTracker

/-! ## In-flight Action ids -/

namespace InFlightActions

/-- Insert each id that is not there yet: the ids this caller won, and the new
set. -/
def claim : List String → List String → List String × List String
  | [], table => ([], table)
  | id :: rest, table =>
      if id ∈ table then claim rest table
      else
        let (claimed, next) := claim rest (id :: table)
        (id :: claimed, next)

def release (ids table : List String) : List String := table.filter (· ∉ ids)

theorem claim_spec (ids table : List String) :
    (∀ id ∈ (claim ids table).1, id ∉ table) ∧
      ∀ id, id ∈ (claim ids table).2 ↔ id ∈ table ∨ id ∈ (claim ids table).1 := by
  induction ids generalizing table with
  | nil => simp [claim]
  | cons head rest induction =>
      simp only [claim]
      split
      · exact induction table
      · next absent =>
          have step := induction (head :: table)
          refine ⟨?_, fun id => ?_⟩
          · intro id member
            rcases List.mem_cons.mp member with equal | member
            · exact equal ▸ absent
            · exact fun present => step.1 id member (List.mem_cons_of_mem head present)
          · rw [step.2 id]
            simp only [List.mem_cons]
            tauto

end InFlightActions

/-- A mark is settled, or provisional while a commit is in flight. -/
inductive Mark where
  | settled (generation : Nat)
  | pending (generation : Nat)
deriving DecidableEq

namespace DirtyTracker

abbrev Marks := String → Option Mark

def isPending : Option Mark → Bool
  | some (.pending _) => true
  | _ => false

def insertMarks (entities : List String) (mark : Mark) (marks : Marks) : Marks :=
  fun entity => if entity ∈ entities then some mark else marks entity

def markDirtyBatch (entities : List String) (generation : Nat) (marks : Marks) : Marks :=
  insertMarks entities (.settled generation) marks

def markPendingBatch (entities : List String) (generation : Nat) (marks : Marks) : Marks :=
  insertMarks entities (.pending generation) marks

def clearPendingBatch (entities : List String) (generation : Nat) (marks : Marks) : Marks :=
  fun entity =>
    if entity ∈ entities ∧ marks entity = some (.pending generation) then none
    else marks entity

def settleAllPending (generation : Nat) (marks : Marks) : Marks :=
  fun entity => if isPending (marks entity) then some (.settled generation) else marks entity

/-- Compare-and-clear. An observed absence matches no row. -/
def clearDirty (entity : String) (observed : Option Mark) (marks : Marks) : Marks :=
  fun other => if other = entity ∧ marks other = observed then none else marks other

end DirtyTracker

end Ebb.Server
