import Mathlib.Data.List.Sort

namespace Ebb

/-! Stable sorting by a numeric key. A sorted list is determined by its fibers,
the sublists of its entries under one key, and a stable sort keeps every
fiber. -/

section StableSort

variable {α : Type u} {β : Type v} (key : α → Nat)

/-! ## Fibers -/

/-- The entries under one key, in list order. -/
def fiber (value : Nat) (list : List α) : List α :=
  list.filter fun entry => key entry == value

variable {key}

variable {list : List α} {entry : α} (value : Nat)

theorem fiber_append (before after : List α) :
    fiber key value (before ++ after) = fiber key value before ++ fiber key value after :=
  List.filter_append before after

theorem fiber_cons_self (head : α) (rest : List α) :
    fiber key (key head) (head :: rest) = head :: fiber key (key head) rest := by
  simp [fiber]

theorem fiber_cons_of_ne {value : Nat} {head : α} (different : key head ≠ value)
    (rest : List α) : fiber key value (head :: rest) = fiber key value rest := by
  simp [fiber, different]

theorem mem_fiber {value : Nat} :
    entry ∈ fiber key value list ↔ entry ∈ list ∧ key entry = value := by
  simp [fiber]

theorem fiber_filter (keep : α → Bool) (list : List α) :
    fiber key value (list.filter keep) = (fiber key value list).filter keep := by
  simp only [fiber, List.filter_filter]
  congr 1
  funext entry
  exact Bool.and_comm _ _

theorem fiber_filter_key (value : Nat) (keep : Nat → Bool) (list : List α) :
    fiber key value (list.filter fun entry => keep (key entry)) =
      if keep value then fiber key value list else [] := by
  rw [fiber_filter]
  split
  · next kept =>
      rw [List.filter_eq_self]
      intro entry member
      rw [(mem_fiber.mp member).2, kept]
  · next dropped =>
      rw [List.filter_eq_nil_iff]
      intro entry member
      rw [(mem_fiber.mp member).2]
      exact dropped

theorem fiber_eq_singleton (nodup : (list.map key).Nodup) (member : entry ∈ list)
    : fiber key (key entry) list = [entry] := by
  induction list with
  | nil => cases member
  | cons head rest induction =>
      have parts := List.nodup_cons.mp nodup
      rcases List.mem_cons.mp member with equal | member
      · subst equal
        have alone : fiber key (key entry) rest = [] := by
          simp only [fiber, List.filter_eq_nil_iff, beq_iff_eq]
          intro other otherMember same
          exact parts.1 (same ▸ List.mem_map_of_mem otherMember)
        rw [fiber_cons_self, alone]
      · have different : key head ≠ key entry := fun same =>
          parts.1 (same ▸ List.mem_map_of_mem member)
        rw [fiber_cons_of_ne different, induction parts.2 member]

theorem fiber_map (relabel : β → α) (value : Nat) (list : List β) :
    fiber key value (list.map relabel) =
      (fiber (fun entry => key (relabel entry)) value list).map relabel := by
  simp only [fiber, List.filter_map]
  rfl

/-! ## Sorted lists -/

variable (key) in
def SortedBy (list : List α) : Prop :=
  list.Pairwise fun left right => key left ≤ key right

theorem SortedBy.filter (sorted : SortedBy key list) (keep : α → Bool) :
    SortedBy key (list.filter keep) :=
  List.Pairwise.filter keep sorted

theorem eq_of_fibers {left right : List α} (leftSorted : SortedBy key left)
    (rightSorted : SortedBy key right)
    (sameFibers : ∀ value, fiber key value left = fiber key value right) : left = right := by
  induction left generalizing right with
  | nil =>
      cases right with
      | nil => rfl
      | cons head rest =>
          have same := sameFibers (key head)
          rw [fiber_cons_self] at same
          cases same
  | cons leftHead leftRest induction =>
      cases right with
      | nil =>
          have same := sameFibers (key leftHead)
          rw [fiber_cons_self] at same
          cases same
      | cons rightHead rightRest =>
          have leftParts := List.pairwise_cons.mp leftSorted
          have rightParts := List.pairwise_cons.mp rightSorted
          have leftInRight : leftHead ∈ rightHead :: rightRest :=
            (mem_fiber.mp (sameFibers (key leftHead) ▸
              mem_fiber.mpr ⟨List.mem_cons_self, rfl⟩)).1
          have rightInLeft : rightHead ∈ leftHead :: leftRest :=
            (mem_fiber.mp ((sameFibers (key rightHead)).symm ▸
              mem_fiber.mpr ⟨List.mem_cons_self, rfl⟩)).1
          have level : key leftHead = key rightHead := by
            rcases List.mem_cons.mp leftInRight with equal | member
            · rw [equal]
            · rcases List.mem_cons.mp rightInLeft with equal | other
              · rw [equal]
              · have first := rightParts.1 leftHead member
                have second := leftParts.1 rightHead other
                omega
          have heads := sameFibers (key leftHead)
          rw [fiber_cons_self, level, fiber_cons_self] at heads
          have sameHead : leftHead = rightHead := (List.cons.inj heads).1
          subst sameHead
          congr 1
          apply induction leftParts.2 rightParts.2
          intro value
          have same := sameFibers value
          by_cases found : key leftHead = value
          · subst found
            rw [fiber_cons_self, fiber_cons_self] at same
            exact (List.cons.inj same).2
          · rwa [fiber_cons_of_ne found, fiber_cons_of_ne found] at same

/-! ## Insertion behind a key -/

variable (key) in
/-- The entries of a list that a new entry under `value` comes after. -/
def upTo (value : Nat) (list : List α) : List α :=
  list.filter fun entry => key entry ≤ value

variable (key) in
/-- The entries of a list that a new entry under `value` comes before. -/
def beyond (value : Nat) (list : List α) : List α :=
  list.filter fun entry => value < key entry

theorem upTo_append_beyond (sorted : SortedBy key list) (value : Nat) :
    upTo key value list ++ beyond key value list = list := by
  induction list with
  | nil => rfl
  | cons head rest induction =>
      have parts := List.pairwise_cons.mp sorted
      by_cases before : key head ≤ value
      · have notBeyond : ¬ value < key head := by omega
        simpa [upTo, beyond, before, notBeyond] using induction parts.2
      · have allBeyond : ∀ entry ∈ rest, value < key entry := by
          intro entry member
          have := parts.1 entry member
          omega
        have none : upTo key value (head :: rest) = [] := by
          simp only [upTo, List.filter_eq_nil_iff, List.mem_cons, decide_eq_true_eq]
          rintro entry (equal | member)
          · rw [equal]
            exact before
          · have := allBeyond entry member
            omega
        have all : beyond key value (head :: rest) = head :: rest := by
          simp only [beyond, List.filter_eq_self, List.mem_cons, decide_eq_true_eq]
          rintro entry (equal | member)
          · rw [equal]
            omega
          · exact allBeyond entry member
        rw [none, all, List.nil_append]

variable (key) in
/-- Insert an entry behind every entry whose key does not exceed its own. -/
def insertBy (entry : α) (list : List α) : List α :=
  upTo key (key entry) list ++ entry :: beyond key (key entry) list

theorem sortedBy_insertBy (sorted : SortedBy key list) (entry : α) :
    SortedBy key (insertBy key entry list) := by
  simp only [insertBy, SortedBy, List.pairwise_append, List.pairwise_cons]
  refine ⟨sorted.filter _, ⟨?_, sorted.filter _⟩, ?_⟩
  · intro later member
    have := of_decide_eq_true (List.mem_filter.mp member).2
    omega
  · intro earlier member later laterMember
    have below := of_decide_eq_true (List.mem_filter.mp member).2
    rcases List.mem_cons.mp laterMember with equal | beyond
    · rw [equal]
      exact below
    · have above := of_decide_eq_true (List.mem_filter.mp beyond).2
      omega

theorem fiber_insertBy (entry : α) (list : List α) :
    fiber key value (insertBy key entry list) =
      fiber key value list ++ fiber key value [entry] := by
  have before := @fiber_filter_key α key value (fun other => other ≤ key entry) list
  have after := @fiber_filter_key α key value (fun other => key entry < other) list
  rw [insertBy, ← List.singleton_append, fiber_append, fiber_append, upTo, beyond, before, after]
  by_cases found : key entry = value
  · have notBeyond : ¬ key entry < value := by omega
    have below : value ≤ key entry := by omega
    simp [notBeyond, below]
  · have alone : fiber key value [entry] = [] := fiber_cons_of_ne found []
    rw [alone]
    by_cases below : value ≤ key entry
    · have notBeyond : ¬ key entry < value := by omega
      simp [below, notBeyond]
    · have beyond : key entry < value := by omega
      simp [below, beyond]

/-! ## The stable sort -/

variable (key) in
def sortBy (list : List α) : List α :=
  list.foldl (fun sorted entry => insertBy key entry sorted) []

theorem sortBy_invariant {property : List α → List α → Prop} (nil : property [] [])
    (insert : ∀ earlier sorted entry, property earlier sorted →
      property (earlier ++ [entry]) (insertBy key entry sorted)) (list : List α) :
    property list (sortBy key list) := by
  have general : ∀ rest earlier sorted, property earlier sorted →
      property (earlier ++ rest)
        (rest.foldl (fun sorted entry => insertBy key entry sorted) sorted) := by
    intro rest
    induction rest with
    | nil =>
        intro earlier sorted holds
        rw [List.append_nil]
        exact holds
    | cons head rest induction =>
        intro earlier sorted holds
        rw [List.append_cons]
        exact induction _ _ (insert earlier sorted head holds)
  exact general list [] [] nil

theorem sortedBy_sortBy (list : List α) : SortedBy key (sortBy key list) := by
  apply @sortBy_invariant α key (fun _ sorted => SortedBy key sorted) List.Pairwise.nil
  intro earlier sorted entry ordered
  exact sortedBy_insertBy ordered entry

theorem perm_insertBy (entry : α) (list : List α) :
    (insertBy key entry list).Perm (entry :: list) := by
  have split : (upTo key (key entry) list ++ beyond key (key entry) list).Perm list := by
    have complement : beyond key (key entry) list =
        list.filter fun other => !decide (key other ≤ key entry) := by
      apply List.filter_congr
      intro other _
      by_cases below : key other ≤ key entry
      · have notBeyond : ¬ key entry < key other := by omega
        simp [below, notBeyond]
      · have isBeyond : key entry < key other := by omega
        simp [below, isBeyond]
    rw [complement]
    exact List.filter_append_perm _ list
  exact List.perm_middle.trans (split.cons entry)

theorem mem_insertBy {other : α} :
    other ∈ insertBy key entry list ↔ other = entry ∨ other ∈ list := by
  rw [(perm_insertBy entry list).mem_iff, List.mem_cons]

theorem perm_sortBy (list : List α) : (sortBy key list).Perm list := by
  apply @sortBy_invariant α key (fun list sorted => sorted.Perm list) (List.Perm.refl [])
  intro earlier sorted entry same
  exact (perm_insertBy entry sorted).trans
    ((same.cons entry).trans (List.perm_append_singleton entry earlier).symm)

theorem mem_sortBy : entry ∈ sortBy key list ↔ entry ∈ list :=
  (perm_sortBy list).mem_iff

theorem fiber_sortBy (list : List α) :
    fiber key value (sortBy key list) = fiber key value list := by
  apply @sortBy_invariant α key
    (fun list sorted => fiber key value sorted = fiber key value list) rfl
  intro earlier sorted entry same
  rw [fiber_insertBy, fiber_append, same]

theorem eq_of_perm {left right : List α} (leftSorted : SortedBy key left)
    (rightSorted : SortedBy key right) (perm : left.Perm right)
    (distinct : (right.map key).Nodup) : left = right := by
  refine perm.eq_of_pairwise (fun entry other member otherMember below above => ?_) leftSorted
    rightSorted
  exact List.inj_on_of_nodup_map distinct (perm.subset member) otherMember
    (Nat.le_antisymm below above)

end StableSort

/-! ## The first of a sorted list -/

theorem head?_insertionSort {α : Type u} (before : α → α → Prop) [DecidableRel before]
    (first : α → Prop) {list : List α} (some_first : ∃ entry ∈ list, first entry)
    (strict : ∀ entry ∈ list, ∀ other ∈ list, first entry → ¬first other →
      before entry other ∧ ¬before other entry) :
    ∃ entry, (list.insertionSort before).head? = some entry ∧ first entry := by
  induction list with
  | nil =>
      rcases some_first with ⟨_, member, _⟩
      cases member
  | cons head rest induction =>
      rw [List.insertionSort_cons]
      have later : ∀ entry ∈ rest, ∀ other ∈ rest, first entry → ¬first other →
          before entry other ∧ ¬before other entry := fun entry member other otherMember =>
        strict entry (List.mem_cons_of_mem _ member) other (List.mem_cons_of_mem _ otherMember)
      cases sorted : rest.insertionSort before with
      | nil =>
          have empty : rest = [] := by
            have same := (List.perm_insertionSort before rest).length_eq
            rw [sorted] at same
            exact List.eq_nil_of_length_eq_zero same.symm
          subst empty
          rcases some_first with ⟨entry, member, holds⟩
          rw [List.mem_singleton] at member
          subst member
          exact ⟨entry, rfl, holds⟩
      | cons next others =>
          have member : next ∈ rest := by
            rw [← List.mem_insertionSort before, sorted]
            exact List.mem_cons_self
          rw [List.orderedInsert_cons]
          by_cases here : first head
          · by_cases there : first next
            · split
              · exact ⟨head, rfl, here⟩
              · exact ⟨next, rfl, there⟩
            · have ahead := (strict head List.mem_cons_self next
                (List.mem_cons_of_mem _ member) here there).1
              rw [if_pos ahead]
              exact ⟨head, rfl, here⟩
          · have inRest : ∃ entry ∈ rest, first entry := by
              rcases some_first with ⟨entry, inList, holds⟩
              rcases List.mem_cons.mp inList with rfl | inList
              · exact absurd holds here
              · exact ⟨entry, inList, holds⟩
            rcases induction inRest later with ⟨entry, leads, holds⟩
            rw [sorted, List.head?_cons, Option.some.injEq] at leads
            subst leads
            have behind := (strict next (List.mem_cons_of_mem _ member) head
              List.mem_cons_self holds here).2
            rw [if_neg behind]
            exact ⟨next, rfl, holds⟩

end Ebb
