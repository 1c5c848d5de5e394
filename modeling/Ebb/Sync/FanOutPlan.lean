import Ebb.Foundation.StableSort

namespace Ebb.Sync

/-! The order in which the FanOutRouter releases committed ranges, as `Plan` keeps it:
ranges by their first GSN, released from the head while they are acknowledged and at or
below the watermark. -/

/-- The first and the last GSN of a claimed range. -/
abbrev GsnRange := Nat × Nat

instance : LawfulBEq GsnRange := inferInstance

namespace GsnRange

def Covers (range : GsnRange) (gsn : Nat) : Prop := range.1 ≤ gsn ∧ gsn ≤ range.2

end GsnRange

structure Plan where
  /-- Claimed ranges that are not released, by their first GSN. -/
  pendingNotifications : List GsnRange
  acked : List GsnRange
  lastPushedGsn : Nat
deriving DecidableEq

namespace Plan

def new (pendingNotifications : List GsnRange) (lastPushedGsn : Nat) : Plan where
  pendingNotifications := sortBy Prod.fst pendingNotifications
  acked := sortBy Prod.fst pendingNotifications
  lastPushedGsn

def claim (plan : Plan) (range : GsnRange) : Plan :=
  if range ∈ plan.pendingNotifications then plan
  else
    { plan with
      pendingNotifications := sortBy Prod.fst (range :: plan.pendingNotifications) }

/-- The releasable prefix of the claim order, and what is left behind it. -/
def takeReleasable (acked : List GsnRange) (watermark : Nat) :
    List GsnRange → List GsnRange × List GsnRange
  | [] => ([], [])
  | range :: rest =>
      if range.2 ≤ watermark ∧ range ∈ acked then
        let (released, remaining) := takeReleasable acked watermark rest
        (range :: released, remaining)
      else ([], range :: rest)

def splitPushable (plan : Plan) (watermark : Nat) : List GsnRange × Plan :=
  let (released, remaining) :=
    takeReleasable plan.acked watermark plan.pendingNotifications
  (released,
    { pendingNotifications := remaining
      acked := plan.acked.filter (· ∉ released)
      lastPushedGsn :=
        released.foldl (fun frontier range => max range.2 frontier) plan.lastPushedGsn })

def acknowledge (plan : Plan) (range : GsnRange) : Plan :=
  { plan with acked := if range ∈ plan.acked then plan.acked else range :: plan.acked }

def release (plan : Plan) (ackedRange : GsnRange) (watermark : Nat) : List GsnRange × Plan :=
  ((plan.claim ackedRange).acknowledge ackedRange).splitPushable watermark

def processBatch (plan : Plan) (fromGsn toGsn watermark : Nat) : List GsnRange × Plan :=
  plan.release (fromGsn, toGsn) watermark

def resolve (plan : Plan) (range : GsnRange) : Plan :=
  { plan with
    pendingNotifications := plan.pendingNotifications.filter (· ≠ range)
    acked := plan.acked.filter (· ≠ range) }

theorem mem_claim {plan : Plan} {range other : GsnRange} :
    other ∈ (plan.claim range).pendingNotifications ↔
      other = range ∨ other ∈ plan.pendingNotifications := by
  rw [claim]
  split
  · next present =>
      constructor
      · exact .inr
      · intro either
        rcases either with equal | member
        · exact equal ▸ present
        · exact member
  · dsimp only
    rw [mem_sortBy, List.mem_cons]

/-! ## What waits -/

/-- The claims wait in claim order, each once and each acknowledged. -/
structure Ordered (plan : Plan) : Prop where
  sorted : SortedBy Prod.fst plan.pendingNotifications
  nodup : plan.pendingNotifications.Nodup
  acked : ∀ range ∈ plan.pendingNotifications, range ∈ plan.acked

/-- Whatever waits has a range at or before it that ends above the watermark. -/
def Blocked (plan : Plan) (watermark : Nat) : Prop :=
  ∀ range ∈ plan.pendingNotifications, ∃ first ∈ plan.pendingNotifications,
    first.1 ≤ range.1 ∧ watermark < first.2

theorem takeReleasable_append {acked : List GsnRange} {watermark : Nat} {ranges : List GsnRange} :
    (takeReleasable acked watermark ranges).1 ++ (takeReleasable acked watermark ranges).2 =
      ranges := by
  induction ranges with
  | nil => rfl
  | cons range rest induction =>
      rw [takeReleasable]
      split
      · dsimp only
        rw [List.cons_append, induction]
      · rfl

theorem head_takeReleasable {acked : List GsnRange} {watermark : Nat} {ranges : List GsnRange}
    {first : GsnRange} {rest : List GsnRange}
    (remaining : (takeReleasable acked watermark ranges).2 = first :: rest) :
    ¬ (first.2 ≤ watermark ∧ first ∈ acked) := by
  induction ranges with
  | nil => cases remaining
  | cons range rest induction =>
      rw [takeReleasable] at remaining
      split at remaining
      · exact induction remaining
      · next blocked =>
          cases remaining
          exact blocked

theorem ordered_new {ranges : List GsnRange} (nodup : ranges.Nodup) (lastPushedGsn : Nat) :
    Ordered (new ranges lastPushedGsn) where
  sorted := sortedBy_sortBy ranges
  nodup := (perm_sortBy ranges).nodup_iff.mpr nodup
  acked _ waits := waits

variable {plan : Plan} (ordered : plan.Ordered) (range : GsnRange)

include ordered

theorem Ordered.claimed : ((plan.claim range).acknowledge range).Ordered := by
  have known {other : GsnRange} (acked : other ∈ plan.acked) :
      other ∈ if range ∈ plan.acked then plan.acked else range :: plan.acked := by
    split
    · exact acked
    · exact List.mem_cons_of_mem _ acked
  have itself : range ∈ if range ∈ plan.acked then plan.acked else range :: plan.acked := by
    split
    · next acked => exact acked
    · exact List.mem_cons_self
  rw [claim]
  split
  · exact { ordered with acked := fun other waits => known (ordered.acked other waits) }
  · next absent =>
      refine ⟨sortedBy_sortBy _, ?_, fun other waits => ?_⟩
      · exact (perm_sortBy _).nodup_iff.mpr (List.nodup_cons.mpr ⟨absent, ordered.nodup⟩)
      · rcases List.mem_cons.mp (mem_sortBy.mp waits) with same | earlier
        · exact same ▸ itself
        · exact known (ordered.acked other earlier)

theorem Ordered.resolve : (plan.resolve range).Ordered where
  sorted := ordered.sorted.filter _
  nodup := ordered.nodup.filter _
  acked other waits := by
    rcases List.mem_filter.mp waits with ⟨waited, kept⟩
    exact List.mem_filter.mpr ⟨ordered.acked other waited, kept⟩

theorem Ordered.splitPushable (watermark : Nat) :
    (plan.splitPushable watermark).2.Ordered ∧
      (plan.splitPushable watermark).2.Blocked watermark := by
  have split := @takeReleasable_append plan.acked watermark plan.pendingNotifications
  have sorted := ordered.sorted
  have nodup := ordered.nodup
  rw [SortedBy, ← split, List.pairwise_append] at sorted
  rw [← split, List.nodup_append'] at nodup
  have remains : ∀ other ∈ (plan.splitPushable watermark).2.pendingNotifications,
      other ∈ plan.acked := by
    intro other waits
    apply ordered.acked
    rw [← split]
    exact List.mem_append_right _ waits
  constructor
  · refine ⟨sorted.2.1, nodup.2.1, fun other waits => ?_⟩
    apply List.mem_filter.mpr
    exact ⟨remains other waits, decide_eq_true fun released => nodup.2.2 released waits⟩
  · intro other waits
    cases remaining : (plan.splitPushable watermark).2.pendingNotifications with
    | nil =>
        rw [remaining] at waits
        cases waits
    | cons first rest =>
        rw [remaining] at waits
        have blocked := head_takeReleasable remaining
        have acked := remains first (by rw [remaining]; exact List.mem_cons_self)
        have above : watermark < first.2 := by
          by_contra within
          exact blocked ⟨Nat.le_of_not_lt within, acked⟩
        refine ⟨first, List.mem_cons_self, ?_, above⟩
        rcases List.mem_cons.mp waits with same | later
        · rw [same]
        · have chain := sorted.2.1
          change SortedBy Prod.fst (plan.splitPushable watermark).2.pendingNotifications at chain
          rw [remaining] at chain
          exact (List.pairwise_cons.mp chain).1 other later

end Plan

end Ebb.Sync
