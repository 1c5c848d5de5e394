import Mathlib.Data.List.Basic

namespace Ebb

/-! First occurrences in a list, and counting along a list in order. -/

/-! ## First occurrences -/

section UniqBy

variable {α : Type u} {κ : Type v} [DecidableEq κ] (key : α → κ)

def uniqBy : List α → List α
  | [] => []
  | head :: rest => head :: (uniqBy rest).filter fun other => key other ≠ key head

example : uniqBy (fun n : Nat => n % 3) [4, 1, 2, 5, 3] = [4, 2, 3] := by decide

theorem uniqBy_sublist (list : List α) : (uniqBy key list).Sublist list := by
  induction list with
  | nil => exact List.Sublist.slnil
  | cons head rest induction => exact (List.filter_sublist.trans induction).cons_cons head

theorem nodup_uniqBy (list : List α) : ((uniqBy key list).map key).Nodup := by
  induction list with
  | nil => exact List.nodup_nil
  | cons head rest induction =>
      have others : ((uniqBy key rest).filter fun other => key other ≠ key head).Sublist
          (uniqBy key rest) := List.filter_sublist
      simp only [uniqBy, List.map_cons, List.nodup_cons]
      exact ⟨by simp, induction.sublist (others.map key)⟩

theorem mem_uniqBy {list : List α} {entry : α} :
    entry ∈ uniqBy key list ↔ ∃ before after, list = before ++ entry :: after ∧
      ∀ other ∈ before, key other ≠ key entry := by
  induction list with
  | nil => simp [uniqBy]
  | cons head rest induction =>
      simp only [uniqBy, List.mem_cons, List.mem_filter, decide_eq_true_eq, induction]
      constructor
      · intro member
        cases member with
        | inl same => exact ⟨[], rest, by simp [same], by simp⟩
        | inr later =>
            obtain ⟨⟨before, after, split, first⟩, different⟩ := later
            exact ⟨head :: before, after, by simp [split], by simpa using ⟨Ne.symm different, first⟩⟩
      · intro found
        obtain ⟨before, after, split, first⟩ := found
        cases before with
        | nil => simp_all
        | cons earlier before =>
            simp only [List.cons_append, List.cons.injEq, List.forall_mem_cons] at split first
            obtain ⟨rfl, rfl⟩ := split
            exact .inr ⟨⟨before, after, rfl, first.2⟩, first.1.symm⟩

theorem map_uniqBy {β : Type w} (image : β → α) (list : List β) :
    (uniqBy (key ∘ image) list).map image = uniqBy key (list.map image) := by
  induction list with
  | nil => rfl
  | cons head rest induction =>
      rw [uniqBy, List.map_cons, List.map_cons, uniqBy, ← induction, List.filter_map]
      rfl

end UniqBy

/-! ## Counting in order -/

section Counting

variable {α : Type u} (rank : α → Nat)

/-- How many entries rank below a bound. -/
def countBelow (list : List α) (bound : Nat) : Nat :=
  list.countP fun entry => rank entry < bound

variable (list : List α)

theorem countBelow_mono {low high : Nat} (ordered : low ≤ high) :
    countBelow rank list low ≤ countBelow rank list high := by
  apply List.countP_mono_left
  intro entry _ below
  simp only [decide_eq_true_eq] at below ⊢
  omega

theorem countBelow_zero : countBelow rank list 0 = 0 := by
  simp [countBelow]

theorem countBelow_eq_length {list : List α} {bound : Nat}
    (below : ∀ entry ∈ list, rank entry < bound) : countBelow rank list bound = list.length := by
  simpa [countBelow, List.countP_eq_length] using below

theorem countBelow_concat (entry : α) (bound : Nat) :
    countBelow rank (list ++ [entry]) bound =
      countBelow rank list bound + if rank entry < bound then 1 else 0 := by
  simp [countBelow, List.countP_append, List.countP_singleton]

theorem rank_lt_iff {list : List α} (ordered : list.Pairwise fun left right =>
    rank left ≤ rank right)
    {place : Nat} {entry : α} (found : list[place]? = some entry) (bound : Nat) :
    rank entry < bound ↔ place < countBelow rank list bound := by
  induction list generalizing place with
  | nil => simp at found
  | cons head rest induction =>
      have parts := List.pairwise_cons.mp ordered
      simp only [countBelow, List.countP_cons] at induction ⊢
      cases place with
      | zero =>
          simp only [List.getElem?_cons_zero, Option.some.injEq] at found
          subst found
          by_cases below : rank head < bound
          · simp [below]
          · have none : rest.countP (fun entry => rank entry < bound) = 0 := by
              simp only [List.countP_eq_zero, decide_eq_true_eq]
              intro other member
              have := parts.1 other member
              omega
            simp [below, none]
      | succ place =>
          rw [List.getElem?_cons_succ] at found
          have later := induction parts.2 found
          have after := parts.1 entry (List.mem_of_getElem? found)
          by_cases below : rank head < bound
          · simp [below, later]
          · have beyond : ¬ rank entry < bound := by omega
            simp only [beyond, false_iff] at later ⊢
            simp only [below, decide_false, Bool.false_eq_true, if_false]
            omega

end Counting

end Ebb
