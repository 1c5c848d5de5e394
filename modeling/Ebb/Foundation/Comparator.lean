import Mathlib.Algebra.Order.Ring.Rat
import Mathlib.Data.List.Basic

namespace Ebb

/-! Comparators: functions whose sign says which of two values comes first. -/

section Comparator

variable {α : Type u} {β : Type v}

/-- The values compared form a total preorder. -/
structure Comparing (compare : α → α → Rat) : Prop where
  flip : ∀ left right, compare left right < 0 ↔ 0 < compare right left
  trans : ∀ {first second third}, compare first second ≤ 0 → compare second third ≤ 0 →
    compare first third ≤ 0

/-- A second comparator decides where the first one finds no difference. -/
def comparingThen (first second : α → α → Rat) (left right : α) : Rat :=
  if first left right = 0 then second left right else first left right

namespace Comparing

variable {compare first second : α → α → Rat}

section

variable (comparing : Comparing compare)
include comparing

variable {left right : α}

theorem level_symm (level : compare left right = 0) : compare right left = 0 := by
  have before := comparing.flip left right
  have after := comparing.flip right left
  rw [level] at before after
  rcases lt_trichotomy (compare right left) 0 with less | same | greater
  · exact absurd (after.mp less) (lt_irrefl 0)
  · exact same
  · exact absurd (before.mpr greater) (lt_irrefl 0)

theorem self (value : α) : compare value value = 0 := by
  have both := comparing.flip value value
  rcases lt_trichotomy (compare value value) 0 with less | same | greater
  · exact absurd (both.mp less) (lt_asymm less)
  · exact same
  · exact absurd (both.mpr greater) (lt_asymm greater)

theorem le_iff : compare right left ≤ 0 ↔ ¬ compare left right < 0 := by
  rw [comparing.flip, not_lt]

theorem lt_of_lt_of_le {middle : α} (before : compare left middle < 0)
    (after : compare middle right ≤ 0) :
    compare left right < 0 := by
  by_contra behind
  have back := comparing.trans after (comparing.le_iff.mpr behind)
  exact comparing.le_iff.mp back before

theorem lt_of_le_of_lt {middle : α} (before : compare left middle ≤ 0)
    (after : compare middle right < 0) :
    compare left right < 0 := by
  by_contra behind
  have back := comparing.trans (comparing.le_iff.mpr behind) before
  exact comparing.le_iff.mp back after

theorem swap :
    Comparing fun left right => compare right left where
  flip left right := comparing.flip right left
  trans before after := comparing.trans after before

theorem comap (key : β → α) :
    Comparing fun left right => compare (key left) (key right) where
  flip left right := comparing.flip (key left) (key right)
  trans before after := comparing.trans before after

end

theorem then_le_iff {left right : α} : comparingThen first second left right ≤ 0 ↔
    first left right < 0 ∨ first left right = 0 ∧ second left right ≤ 0 := by
  rw [comparingThen]
  split
  · next level => simp [level]
  · next apart => simp [apart, le_iff_lt_or_eq]

theorem then_eq_zero_iff {left right : α} : comparingThen first second left right = 0 ↔
    first left right = 0 ∧ second left right = 0 := by
  rw [comparingThen]
  split
  · next level => simp [level]
  · next apart => simp [apart]

theorem andThen (primary : Comparing first) (secondary : Comparing second) :
    Comparing (comparingThen first second) := by
  constructor
  case flip =>
    intro left right
    by_cases level : first left right = 0
    · rw [comparingThen, comparingThen, if_pos level, if_pos (primary.level_symm level)]
      exact secondary.flip left right
    · have back : first right left ≠ 0 := fun same => level (primary.level_symm same)
      rw [comparingThen, comparingThen, if_neg level, if_neg back]
      exact primary.flip left right
  case trans =>
    intro left middle right before after
    rw [then_le_iff] at before after ⊢
    rcases before with less | ⟨level, before⟩
    · rcases after with later | ⟨same, _⟩
      · exact .inl (primary.lt_of_lt_of_le less (le_of_lt later))
      · exact .inl (primary.lt_of_lt_of_le less (le_of_eq same))
    · rcases after with later | ⟨same, after⟩
      · exact .inl (primary.lt_of_le_of_lt (le_of_eq level) later)
      · have outer := primary.trans (le_of_eq level) (le_of_eq same)
        rcases lt_or_eq_of_le outer with less | equal
        · exact .inl less
        · exact .inr ⟨equal, secondary.trans before after⟩

theorem acyclic (comparing : Comparing compare) {one two three : α} (first : compare one two < 0)
    (second : compare two three < 0) : ¬ compare three one < 0 :=
  comparing.le_iff.mp (comparing.trans (le_of_lt first) (le_of_lt second))

end Comparing

/-! ## Sorting by a comparator -/

/-- Among the entries of a list the comparator is a strict total order. -/
structure OrdersStrictly (compare : α → α → Rat) (items : List α) : Prop where
  irrefl : ∀ item ∈ items, ¬ compare item item < 0
  trans : ∀ first ∈ items, ∀ second ∈ items, ∀ third ∈ items,
    compare first second < 0 → compare second third < 0 → compare first third < 0
  total : ∀ left ∈ items, ∀ right ∈ items, left ≠ right →
    compare left right < 0 ∨ compare right left < 0

def comparedLe (compare : α → α → Rat) (left right : α) : Bool := decide (compare left right ≤ 0)

def sortByComparing (compare : α → α → Rat) (items : List α) : List α :=
  items.mergeSort (comparedLe compare)

section Sorted

variable {compare : α → α → Rat} {items other : List α}
  (flip : ∀ left right, compare left right < 0 ↔ 0 < compare right left)
  (strict : OrdersStrictly compare items)

include flip strict

theorem sortByComparing_sorted (within : ∀ item ∈ other, item ∈ items) :
    (sortByComparing compare other).Pairwise fun left right => ¬ compare right left < 0 := by
  have le_iff (left right : α) : compare left right ≤ 0 ↔ ¬ compare right left < 0 := by
    rw [flip, not_lt]
  have trans (first second third : {item // item ∈ items})
      (before : comparedLe compare first.1 second.1 = true)
      (after : comparedLe compare second.1 third.1 = true) :
      comparedLe compare first.1 third.1 = true := by
    simp only [comparedLe, decide_eq_true_eq, le_iff] at before after ⊢
    intro back
    by_cases same : first.1 = second.1
    · exact after (same ▸ back)
    · rcases strict.total _ first.2 _ second.2 same with less | greater
      · exact after (strict.trans _ third.2 _ first.2 _ second.2 back less)
      · exact before greater
  have total (left right : {item // item ∈ items}) :
      (comparedLe compare left.1 right.1 || comparedLe compare right.1 left.1) = true := by
    simp only [comparedLe, Bool.or_eq_true, decide_eq_true_eq, le_iff]
    by_contra neither
    rw [not_or, not_not, not_not] at neither
    exact strict.irrefl _ right.2 (strict.trans _ right.2 _ left.2 _ right.2 neither.1 neither.2)
  have sorted := List.pairwise_mergeSort trans total (other.attachWith (· ∈ items) within)
  have mapped := @List.map_mergeSort {item // item ∈ items} α
    (fun left right => comparedLe compare left.1 right.1) (comparedLe compare) Subtype.val
    (other.attachWith (· ∈ items) within) fun _ _ _ _ => rfl
  rw [List.attachWith_map_subtype_val] at mapped
  rw [sortByComparing, ← mapped, List.pairwise_map]
  exact sorted.imp fun {left right} before =>
    (le_iff left.1 right.1).mp (of_decide_eq_true before)

theorem sortByComparing_perm (perm : other.Perm items) :
    sortByComparing compare other = sortByComparing compare items := by
  have same : (sortByComparing compare other).Perm (sortByComparing compare items) :=
    (List.mergeSort_perm _ _).trans (perm.trans (List.mergeSort_perm _ _).symm)
  refine same.eq_of_pairwise (fun left right inLeft inRight before after => ?_)
    (sortByComparing_sorted flip strict fun item => perm.mem_iff.mp)
    (sortByComparing_sorted flip strict fun _ member => member)
  have leftMember := perm.mem_iff.mp (List.mem_mergeSort.mp inLeft)
  have rightMember := List.mem_mergeSort.mp inRight
  by_contra different
  rcases strict.total left leftMember right rightMember different with less | greater
  · exact after less
  · exact before greater

end Sorted

end Comparator

end Ebb
