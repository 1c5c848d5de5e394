import Ebb.Server.Writer
import Ebb.Sync.FanOutPlan

namespace Ebb.Sync

open Ebb.Server

/-! How the FanOutRouter folds the durable GSNs it finds on its recovery into ranges. -/

namespace Recovery

def foldGsnIntoRange (ranges : List GsnRange) (gsn : Nat) : List GsnRange :=
  match ranges with
  | (rangeFrom, rangeTo) :: rest =>
      if gsn = rangeTo + 1 then (rangeFrom, gsn) :: rest else (gsn, gsn) :: ranges
  | [] => [(gsn, gsn)]

theorem covers_extend {rangeFrom rangeTo : Nat} (valid : rangeFrom ≤ rangeTo) (gsn : Nat) :
    GsnRange.Covers (rangeFrom, rangeTo + 1) gsn ↔
      GsnRange.Covers (rangeFrom, rangeTo) gsn ∨ gsn = rangeTo + 1 := by
  simp only [GsnRange.Covers]
  omega

theorem foldGsnIntoRange_spec {ranges : List GsnRange} {next : Nat}
    (valid : ∀ range ∈ ranges, range.1 ≤ range.2)
    (apart : ranges.Pairwise fun later earlier => earlier.2 < later.1)
    (beyond : ∀ range ∈ ranges, range.2 < next) :
    (∀ range ∈ foldGsnIntoRange ranges next, range.1 ≤ range.2 ∧ range.2 ≤ next) ∧
      (foldGsnIntoRange ranges next).Pairwise (fun later earlier => earlier.2 < later.1) ∧
      ∀ gsn, (∃ range ∈ foldGsnIntoRange ranges next, range.Covers gsn) ↔
        (∃ range ∈ ranges, range.Covers gsn) ∨ gsn = next := by
  have added : (∀ range ∈ ((next, next) : GsnRange) :: ranges, range.1 ≤ range.2 ∧ range.2 ≤ next) ∧
      (((next, next) : GsnRange) :: ranges).Pairwise (fun later earlier => earlier.2 < later.1) ∧
      ∀ gsn, (∃ range ∈ ((next, next) : GsnRange) :: ranges, GsnRange.Covers range gsn) ↔
        (∃ range ∈ ranges, range.Covers gsn) ∨ gsn = next := by
    refine ⟨?_, List.pairwise_cons.mpr ⟨beyond, apart⟩, fun gsn => ?_⟩
    · intro range member
      rcases List.mem_cons.mp member with equal | earlier
      · rw [equal]
        exact ⟨Nat.le_refl _, Nat.le_refl _⟩
      · exact ⟨valid range earlier, Nat.le_of_lt (beyond range earlier)⟩
    · have single : GsnRange.Covers (next, next) gsn ↔ gsn = next := by
        simp only [GsnRange.Covers]
        omega
      rw [List.exists_mem_cons_iff, single, or_comm]
  cases ranges with
  | nil => exact added
  | cons head rest =>
      rcases head with ⟨rangeFrom, rangeTo⟩
      rw [foldGsnIntoRange]
      split
      · next contiguous =>
          have parts := List.pairwise_cons.mp apart
          have headValid := valid _ List.mem_cons_self
          refine ⟨?_, List.pairwise_cons.mpr parts, fun gsn => ?_⟩
          · intro range member
            rcases List.mem_cons.mp member with equal | earlier
            · rw [equal]
              dsimp only at headValid ⊢
              omega
            · have inRanges := List.mem_cons_of_mem (rangeFrom, rangeTo) earlier
              exact ⟨valid range inRanges, Nat.le_of_lt (beyond range inRanges)⟩
          · rw [contiguous, List.exists_mem_cons_iff, List.exists_mem_cons_iff,
              covers_extend headValid, or_assoc, or_assoc, or_comm (a := gsn = _)]
      · exact added

theorem foldl_foldGsnIntoRange_spec {ranges : List GsnRange} {gsns : List Nat}
    (valid : ∀ range ∈ ranges, range.1 ≤ range.2)
    (apart : ranges.Pairwise fun later earlier => earlier.2 < later.1)
    (ascending : gsns.Pairwise fun earlier later => earlier < later)
    (above : ∀ range ∈ ranges, ∀ gsn ∈ gsns, range.2 < gsn) :
    (∀ range ∈ gsns.foldl foldGsnIntoRange ranges, range.1 ≤ range.2) ∧
      (gsns.foldl foldGsnIntoRange ranges).Pairwise
        (fun later earlier => earlier.2 < later.1) ∧
      ∀ gsn, (∃ range ∈ gsns.foldl foldGsnIntoRange ranges, range.Covers gsn) ↔
        (∃ range ∈ ranges, range.Covers gsn) ∨ gsn ∈ gsns := by
  induction gsns generalizing ranges with
  | nil => exact ⟨valid, apart, fun gsn => by simp⟩
  | cons next rest induction =>
      have parts := List.pairwise_cons.mp ascending
      have folded := foldGsnIntoRange_spec valid apart
        fun range member => above range member next List.mem_cons_self
      have rested := induction (fun range member => (folded.1 range member).1) folded.2.1
        parts.2 fun range member gsn later =>
          Nat.lt_of_le_of_lt (folded.1 range member).2 (parts.1 gsn later)
      rw [List.foldl_cons]
      refine ⟨rested.1, rested.2.1, fun gsn => ?_⟩
      rw [rested.2.2 gsn, folded.2.2 gsn, List.mem_cons, or_assoc]

end Recovery

end Ebb.Sync
