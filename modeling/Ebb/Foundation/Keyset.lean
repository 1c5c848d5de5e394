import Mathlib.Data.List.Sort
import Mathlib.Data.List.Nodup

namespace Ebb.Keyset

/-! Rows of a table in the order of a key: what is behind a row is a stretch of the order,
whatever the table's own order is. -/

variable {α : Type u} {κ : Type v} [LinearOrder κ] (key : α → κ)

def ordered (rows : List α) : List α := rows.insertionSort fun left right => key left ≤ key right

example : ordered id [3, 1, 2] = [1, 2, 3] := rfl

theorem perm_ordered (rows : List α) : (ordered key rows).Perm rows := List.perm_insertionSort _
    rows

variable {rows rest : List α} {after : Option κ}

theorem mem_ordered {row : α} : row ∈ ordered key rows ↔ row ∈ rows :=
  (perm_ordered key rows).mem_iff

theorem pairwise_ordered (rows : List α) :
    (ordered key rows).Pairwise fun left right => key left ≤ key right := by
  have : Std.Total fun left right : α => key left ≤ key right :=
    ⟨fun left right => le_total (key left) (key right)⟩
  have : IsTrans α fun left right => key left ≤ key right :=
    ⟨fun _ _ _ first second => le_trans first second⟩
  exact List.pairwise_insertionSort _ rows

theorem ascending_ordered (distinct : (rows.map key).Nodup) :
    (ordered key rows).Pairwise fun left right => key left < key right := by
  have same : ((ordered key rows).map key).Nodup :=
    ((perm_ordered key rows).map key).nodup_iff.mpr distinct
  have different := List.pairwise_map.mp same
  exact ((pairwise_ordered key rows).and different).imp fun both => lt_of_le_of_ne both.1 both.2

theorem eq_of_ascending {left right : List α}
    (leftAscending : left.Pairwise fun first second => key first < key second)
    (rightAscending : right.Pairwise fun first second => key first < key second)
    (same : ∀ row, row ∈ left ↔ row ∈ right) : left = right := by
  have distinct {rows : List α}
      (ascending : rows.Pairwise fun first second => key first < key second) :
      (rows.map key).Nodup := List.pairwise_map.mpr (ascending.imp ne_of_lt)
  have leftDistinct := distinct leftAscending
  have perm := (List.perm_ext_iff_of_nodup leftDistinct.of_map
    (distinct rightAscending).of_map).mpr same
  refine List.Perm.eq_of_pairwise ?_ (leftAscending.imp le_of_lt) (rightAscending.imp le_of_lt) perm
  intro first second firstMember secondMember below above
  exact List.inj_on_of_nodup_map leftDistinct firstMember ((same second).mpr secondMember)
    (le_antisymm below above)

theorem ordered_congr {left right : List α} (leftDistinct : (left.map key).Nodup)
    (rightDistinct : (right.map key).Nodup) (same : ∀ row, row ∈ left ↔ row ∈ right) :
    ordered key left = ordered key right := by
  apply eq_of_ascending key (ascending_ordered key leftDistinct) (ascending_ordered key rightDistinct)
  intro row
  rw [mem_ordered, mem_ordered, same]

theorem ordered_filter (distinct : (rows.map key).Nodup) (keep : α → Bool) :
    ordered key (rows.filter keep) = (ordered key rows).filter keep := by
  have fewer : ((rows.filter keep).map key).Nodup :=
    distinct.sublist (List.filter_sublist.map key)
  apply eq_of_ascending key (ascending_ordered key fewer)
    ((ascending_ordered key distinct).filter keep)
  intro row
  rw [mem_ordered, List.mem_filter, List.mem_filter, mem_ordered]

def behind (after : Option κ) (rows : List α) : List α :=
  rows.filter fun row => after.all fun last => last < key row

theorem behind_none (rows : List α) : behind key none rows = rows :=
  List.filter_eq_self.mpr fun _ _ => rfl

theorem behind_row {before : List α} {row : α}
    (ascending : (before ++ row :: rest).Pairwise fun left right => key left < key right) :
    behind key (some (key row)) (before ++ row :: rest) = rest := by
  rw [List.pairwise_append, List.pairwise_cons] at ascending
  rcases ascending with ⟨_, ⟨later, _⟩, earlier⟩
  have none : (before.filter fun other => decide (key row < key other)) = [] := by
    rw [List.filter_eq_nil_iff]
    intro other member less
    exact absurd (of_decide_eq_true less)
      (lt_asymm (earlier other member row List.mem_cons_self))
  have every : (rest.filter fun other => decide (key row < key other)) = rest := by
    rw [List.filter_eq_self]
    exact fun other member => decide_eq_true (later other member)
  change ((before ++ row :: rest).filter fun other => decide (key row < key other)) = rest
  rw [List.filter_append, none, List.filter_cons_of_neg (by simp), every, List.nil_append]

theorem behind_behind {last : κ} (later : ∀ first, after = some first → first < last)
    (rows : List α) : behind key (some last) (behind key after rows) = behind key
      (some last) rows := by
  rw [behind, behind, behind, List.filter_filter]
  apply List.filter_congr
  intro row _
  cases after with
  | none => exact Bool.and_true _
  | some first =>
      change (decide (last < key row) && decide (first < key row)) = decide (last < key row)
      by_cases less : last < key row
      · rw [decide_eq_true less, decide_eq_true ((later first rfl).trans less)]
        rfl
      · rw [decide_eq_false less]
        rfl

theorem behind_page {page : List α}
    (ascending : rows.Pairwise fun left right => key left < key right)
    (cut : behind key after rows = page ++ rest) {last : α} (ends : page.getLast? = some last) :
    behind key (some (key last)) rows = rest := by
  rcases List.getLast?_eq_some_iff.mp ends with ⟨before, rfl⟩
  have listed : last ∈ behind key after rows := by
    rw [cut]
    simp
  have later : ∀ first, after = some first → first < key last := by
    rintro first rfl
    exact of_decide_eq_true (List.mem_filter.mp listed).2
  have split : behind key after rows = before ++ last :: rest := by
    rw [cut, List.append_assoc]
    rfl
  have cutAscending : (behind key after rows).Pairwise fun left right => key left < key right :=
    ascending.filter _
  rw [← behind_behind key later, split]
  rw [split] at cutAscending
  exact behind_row key cutAscending

theorem filter_upTo_page {page : List α}
    (ascending : rows.Pairwise fun left right => key left < key right)
    (cut : behind key after rows = page ++ rest) {last : α} (ends : page.getLast? = some last) :
    (rows.filter fun row => key row ≤ key last && after.all fun first => first < key row) =
      page := by
  rcases List.getLast?_eq_some_iff.mp ends with ⟨before, rfl⟩
  have cutAscending : (behind key after rows).Pairwise fun left right => key left < key right :=
    ascending.filter _
  rw [cut, List.pairwise_append] at cutAscending
  rcases cutAscending with ⟨pageAscending, _, across⟩
  rw [List.pairwise_append] at pageAscending
  rw [← List.filter_filter]
  change (behind key after rows).filter _ = _
  rw [cut, List.filter_append]
  have inside : ((before ++ [last]).filter fun row => decide (key row ≤ key last)) =
      before ++ [last] := by
    rw [List.filter_eq_self]
    intro row member
    rcases List.mem_append.mp member with earlier | isLast
    · exact decide_eq_true (le_of_lt (pageAscending.2.2 row earlier last List.mem_cons_self))
    · rw [List.mem_singleton.mp isLast]
      exact decide_eq_true (le_refl _)
  have outside : (rest.filter fun row => decide (key row ≤ key last)) = [] := by
    rw [List.filter_eq_nil_iff]
    intro row member notAfter
    have less := across last (List.mem_append_right _ List.mem_cons_self) row member
    exact absurd (of_decide_eq_true notAfter) (not_le_of_gt less)
  rw [inside, outside, List.append_nil]

end Ebb.Keyset
