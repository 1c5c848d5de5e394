import Mathlib.Data.List.Nodup
import Mathlib.Logic.Function.Basic

namespace Ebb

/-! Replacing a stretch of a list, and lists put together from what keys stand for. -/

section Splice

variable {α : Type u}

/-- A list with another in place of what lies from one position up to a second. -/
def splice (items : List α) (start stop : Nat) (insert : List α) : List α :=
  items.take start ++ insert ++ items.drop stop

theorem splice_middle (before middle after insert : List α) :
    splice (before ++ (middle ++ after)) before.length (before.length + middle.length) insert =
      before ++ (insert ++ after) := by
  rw [splice, List.take_left, ← List.drop_drop, List.drop_left, List.drop_left, List.append_assoc]

end Splice

section Keyed

variable {κ : Type u} {α : Type v}

theorem flatMap_of_sublist {keys more : List κ} {pieces : κ → List α} (listed : keys.Sublist more)
    (nodup : more.Nodup) (rest : ∀ key ∈ more, key ∉ keys → pieces key = []) :
    more.flatMap pieces = keys.flatMap pieces := by
  induction listed with
  | slnil => rfl
  | @cons keys more head listed induction =>
      rcases List.nodup_cons.mp nodup with ⟨absent, tail⟩
      rw [List.flatMap_cons, rest head List.mem_cons_self fun member => absent (listed.subset member),
        List.nil_append]
      exact induction tail fun key member => rest key (List.mem_cons_of_mem _ member)
  | @cons_cons keys more head listed induction =>
      rcases List.nodup_cons.mp nodup with ⟨absent, tail⟩
      rw [List.flatMap_cons, List.flatMap_cons, induction tail]
      intro key member unlisted
      apply rest key (List.mem_cons_of_mem _ member)
      rw [List.mem_cons, not_or]
      refine ⟨?_, unlisted⟩
      rintro rfl
      exact absent member

theorem filterMap_of_sublist {keys more : List κ} {item : κ → Option α}
    (listed : keys.Sublist more) (nodup : more.Nodup)
    (rest : ∀ key ∈ more, key ∉ keys → item key = none) :
    more.filterMap item = keys.filterMap item := by
  rw [List.filterMap_eq_flatMap_toList, List.filterMap_eq_flatMap_toList]
  apply flatMap_of_sublist listed nodup
  intro key member unlisted
  rw [rest key member unlisted]
  rfl

variable [DecidableEq κ]

theorem flatMap_update_of_notMem {keys : List κ} {key : κ} (absent : key ∉ keys)
    (pieces : κ → List α) (piece : List α) :
    keys.flatMap (Function.update pieces key piece) = keys.flatMap pieces := by
  apply List.flatMap_congr
  intro other member
  apply Function.update_of_ne
  rintro rfl
  exact absent member

theorem splice_flatMap {before after : List κ} {key : κ} (nodup : (before ++ key :: after).Nodup)
    (pieces : κ → List α) (piece : List α) :
    splice ((before ++ key :: after).flatMap pieces) (before.flatMap pieces).length
        ((before.flatMap pieces).length + (pieces key).length) piece =
      (before ++ key :: after).flatMap (Function.update pieces key piece) := by
  rw [List.nodup_append, List.nodup_cons] at nodup
  rcases nodup with ⟨_, ⟨outAfter, _⟩, apart⟩
  have outBefore : key ∉ before := fun member => apart key member key List.mem_cons_self rfl
  rw [List.flatMap_append, List.flatMap_cons, splice_middle, List.flatMap_append,
    List.flatMap_cons, flatMap_update_of_notMem outBefore, flatMap_update_of_notMem outAfter,
    Function.update_self]

end Keyed

end Ebb
