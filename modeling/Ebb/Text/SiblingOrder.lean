import Ebb.Core.FieldSemilattice
import Ebb.Text.ReachableStates
import Mathlib.Data.List.Induction

namespace Ebb.Text

/-! Documents put together from inserts alone. Siblings are kept in the order of their stamps,
so the lists of children are the same for every order of the inserts. -/

/-! ## Stamps -/

/-- A run comes before another among siblings. -/
def RunNode.Leads (left right : RunNode) : Prop := compareRuns left right < 0

def RunNode.stamp (node : RunNode) : HLCTimestamp × String := (node.hlc, node.actorId)

theorem leads_iff {left right : RunNode} : left.Leads right ↔
    right.hlc < left.hlc ∨ left.hlc = right.hlc ∧ codeUnitsGe right.actorId left.actorId = false := by
  rw [RunNode.Leads, compareRuns]
  rcases Nat.lt_trichotomy left.hlc right.hlc with less | same | greater
  · rw [show compareHlc left.hlc right.hlc = -1 from if_pos less, if_pos (by decide)]
    refine iff_of_false (by decide) ?_
    rintro (greater | ⟨same, _⟩)
    · exact Nat.lt_asymm less greater
    · exact Nat.ne_of_lt less same
  · have level : compareHlc left.hlc right.hlc = 0 := by
      rw [compareHlc, same, if_neg (Nat.lt_irrefl _), if_neg (Nat.lt_irrefl _)]
    rw [level, same, if_neg (fun different => different rfl)]
    cases codeUnitsGe right.actorId left.actorId with
    | true =>
        refine iff_of_false ?_ ?_
        · rw [if_neg (by decide)]
          split
          · decide
          · decide
        · rintro (less | ⟨_, none⟩)
          · exact Nat.lt_irrefl _ less
          · cases none
    | false =>
        rw [if_pos (show (!false) = true from rfl)]
        exact iff_of_true (by decide) (.inr ⟨rfl, rfl⟩)
  · have above : compareHlc left.hlc right.hlc = 1 := by
      rw [compareHlc, if_neg (Nat.lt_asymm greater), if_pos greater]
    rw [above, if_pos (by decide)]
    exact iff_of_true (by decide) (.inl greater)

theorem RunNode.Leads.trans {first second third : RunNode} (before : first.Leads second)
    (after : second.Leads third) : first.Leads third := by
  rw [leads_iff] at before after ⊢
  rcases before with newer | ⟨level, greater⟩
  · rcases after with later | ⟨same, _⟩
    · exact .inl (Nat.lt_trans later newer)
    · exact .inl (same ▸ newer)
  · rcases after with later | ⟨same, further⟩
    · exact .inl (level ▸ later)
    · exact .inr ⟨level.trans same, Wire.codeUnitsGe_false_iff.mpr
        (List.lt_trans (Wire.codeUnitsGe_false_iff.mp further)
          (Wire.codeUnitsGe_false_iff.mp greater))⟩

theorem RunNode.Leads.asymm {left right : RunNode} (before : left.Leads right) :
    ¬ right.Leads left := by
  intro after
  have self := before.trans after
  rw [leads_iff] at self
  rcases self with newer | ⟨_, greater⟩
  · exact Nat.lt_irrefl _ newer
  · exact List.lt_irrefl _ (Wire.codeUnitsGe_false_iff.mp greater)

theorem leads_of_not {left right : RunNode} (different : left.stamp ≠ right.stamp)
    (behind : ¬ left.Leads right) : right.Leads left := by
  rw [leads_iff] at behind ⊢
  rw [not_or, not_and, Nat.not_lt, Bool.not_eq_false] at behind
  rcases Nat.lt_or_eq_of_le behind.1 with less | same
  · exact .inl less
  · have forward := codeUnitsGe_iff.mp (behind.2 same)
    refine .inr ⟨same.symm, ?_⟩
    rw [← Bool.not_eq_true, codeUnitsGe_iff]
    intro backward
    have actors := codeUnits_injective (List.le_antisymm backward forward)
    exact different (Prod.ext same actors.symm)

theorem findIdx_parts {α : Type u} {items : List α} {before : α → α → Prop} {wanted : α → Bool}
    (sorted : items.Pairwise before)
    (carries : ∀ left ∈ items, ∀ right ∈ items, before left right → wanted left = true →
      wanted right = true) :
    (∀ item ∈ items.take (items.findIdx wanted), wanted item = false) ∧
      ∀ item ∈ items.drop (items.findIdx wanted), wanted item = true := by
  induction items with
  | nil => exact ⟨nofun, nofun⟩
  | cons head rest induction =>
      rw [List.pairwise_cons] at sorted
      rcases induction sorted.2 fun left first right second =>
        carries left (List.mem_cons_of_mem _ first) right (List.mem_cons_of_mem _ second) with
        ⟨without, having⟩
      rw [List.findIdx_cons]
      cases here : wanted head with
      | true =>
          refine ⟨nofun, fun item member => ?_⟩
          rcases List.mem_cons.mp member with rfl | later
          · exact here
          · exact carries head List.mem_cons_self item (List.mem_cons_of_mem _ later)
              (sorted.1 item later) here
      | false =>
          refine ⟨fun item member => ?_, having⟩
          rcases List.mem_cons.mp member with rfl | later
          · exact here
          · exact without item later

/-! ## Inserts alone -/

/-- Runs with ids and stamps of their own, none of them the root. -/
structure Separate (nodes : List RunNode) : Prop where
  ids : (nodes.map RunNode.id).Nodup
  stamps : (nodes.map RunNode.stamp).Nodup
  notRoot : ∀ node ∈ nodes, node.id ≠ rootId

theorem Separate.sublist {nodes more : List RunNode} (separate : Separate more)
    (sublist : nodes.Sublist more) : Separate nodes where
  ids := separate.ids.sublist (sublist.map _)
  stamps := separate.stamps.sublist (sublist.map _)
  notRoot := fun node member => separate.notRoot node (sublist.subset member)

theorem Separate.perm {nodes others : List RunNode} (separate : Separate nodes)
    (perm : others.Perm nodes) : Separate others where
  ids := ((perm.map _).nodup_iff).mpr separate.ids
  stamps := ((perm.map _).nodup_iff).mpr separate.stamps
  notRoot := fun node member => separate.notRoot node (perm.subset member)

theorem Separate.eq_of_id {nodes : List RunNode} (separate : Separate nodes) {left right : RunNode}
    (first : left ∈ nodes) (second : right ∈ nodes) (same : left.id = right.id) : left = right :=
  List.inj_on_of_nodup_map separate.ids first second same

theorem Separate.eq_of_stamp {nodes : List RunNode} (separate : Separate nodes)
    {left right : RunNode} (first : left ∈ nodes) (second : right ∈ nodes)
    (same : left.stamp = right.stamp) : left = right :=
  List.inj_on_of_nodup_map separate.stamps first second same

namespace DocState

def built (nodes : List RunNode) : DocState := nodes.foldl applyInsertRun createDocState

theorem built_append (before : List RunNode) (node : RunNode) :
    built (before ++ [node]) = (built before).applyInsertRun node := by
  rw [built, List.foldl_append]
  rfl

/-- A document holds some runs and nothing else, each below its parent and in the order of the
stamps. -/
structure Holds (state : DocState) (nodes : List RunNode) : Prop where
  listed : Listed state
  found : ∀ id node, state.nodes.get? id = some node ↔
    (id = rootId ∧ node = rootNode) ∨ (node ∈ nodes ∧ node.id = id)
  children : ∀ parent child, child ∈ state.childIds parent ↔
    ∃ node ∈ nodes, node.id = child ∧ node.parentId = parent
  sorted : ∀ parent, (state.childIds parent).Pairwise fun left right =>
    ∀ first second, state.nodes.get? left = some first → state.nodes.get? right = some second →
      first.Leads second

section Holds

variable {state : DocState} {nodes : List RunNode}

theorem holds_createDocState : Holds createDocState [] := by
  constructor
  case listed => exact listed_createDocState
  case found =>
    intro id node
    change (OrderedMap.empty.set rootId rootNode).get? id = some node ↔ _
    rw [OrderedMap.get?_set]
    split
    · next same => simp [same, eq_comm]
    · next apart => simp [apart]
  case children =>
    intro parent child
    rw [childIds_createDocState]
    simp
  case sorted =>
    intro parent
    rw [childIds_createDocState]
    exact List.Pairwise.nil

theorem Holds.get?_of_mem (holds : Holds state nodes) {node : RunNode} (member : node ∈ nodes) :
    state.nodes.get? node.id = some node := (holds.found node.id node).mpr (.inr ⟨member, rfl⟩)

theorem Holds.stored_iff (holds : Holds state nodes) (id : String) :
    (state.nodes.get? id).isSome = true ↔ id = rootId ∨ ∃ node ∈ nodes, node.id = id := by
  rw [Option.isSome_iff_exists]
  constructor
  · rintro ⟨node, found⟩
    rcases (holds.found id node).mp found with ⟨same, _⟩ | ⟨member, same⟩
    · exact .inl same
    · exact .inr ⟨node, member, same⟩
  · rintro (rfl | ⟨node, member, rfl⟩)
    · exact ⟨rootNode, (holds.found rootId rootNode).mpr (.inl ⟨rfl, rfl⟩)⟩
    · exact ⟨node, holds.get?_of_mem member⟩

theorem apart_of_separate {node : RunNode} (separate : Separate (nodes ++ [node])) :
    ∀ other ∈ nodes, other.id ≠ node.id := by
  have ids := separate.ids
  rw [List.map_append, List.nodup_append] at ids
  intro other member
  exact ids.2.2 other.id (List.mem_map_of_mem member) node.id List.mem_cons_self

theorem Holds.fresh {node : RunNode} (holds : Holds state nodes)
    (separate : Separate (nodes ++ [node])) : ¬ (state.nodes.get? node.id).isSome = true := by
  rw [holds.stored_iff]
  rintro (root | ⟨other, member, same⟩)
  · exact separate.notRoot node (List.mem_append_right _ List.mem_cons_self) root
  · exact apart_of_separate separate other member same

theorem Holds.found_withRun {node : RunNode} (holds : Holds state nodes)
    (separate : Separate (nodes ++ [node])) (id : String) (other : RunNode) :
    (state.withRun node).nodes.get? id = some other ↔
      (id = rootId ∧ other = rootNode) ∨ (other ∈ nodes ++ [node] ∧ other.id = id) := by
  have last : node ∈ nodes ++ [node] := List.mem_append_right _ List.mem_cons_self
  change (state.nodes.set node.id node).get? id = some other ↔ _
  rw [OrderedMap.get?_set]
  by_cases same : id = node.id
  · rw [if_pos same, same]
    constructor
    · intro equal
      cases equal
      exact .inr ⟨last, rfl⟩
    · rintro (⟨root, _⟩ | ⟨member, named⟩)
      · exact absurd root (separate.notRoot node last)
      · rw [separate.eq_of_id member last named]
  · rw [if_neg same, holds.found]
    apply or_congr_right
    rw [List.mem_append, List.mem_singleton]
    constructor
    · exact fun old => ⟨.inl old.1, old.2⟩
    · rintro ⟨old | rfl, named⟩
      · exact ⟨old, named⟩
      · exact absurd named.symm same

theorem Holds.children_withRun {node : RunNode} (holds : Holds state nodes)
    (parent child : String) : child ∈ (state.withRun node).childIds parent ↔
      ∃ sibling ∈ nodes ++ [node], sibling.id = child ∧ sibling.parentId = parent := by
  have last : node ∈ nodes ++ [node] := List.mem_append_right _ List.mem_cons_self
  rw [childIds_withRun state node]
  by_cases same : parent = node.parentId
  · rw [if_pos same, List.perm_middle.mem_iff, List.take_append_drop, List.mem_cons,
      holds.children, same]
    constructor
    · rintro (rfl | ⟨sibling, member, named⟩)
      · exact ⟨node, last, rfl, rfl⟩
      · exact ⟨sibling, List.mem_append_left _ member, named⟩
    · rintro ⟨sibling, member, named⟩
      rcases List.mem_append.mp member with old | new
      · exact .inr ⟨sibling, old, named⟩
      · rw [List.mem_singleton.mp new] at named
        exact .inl named.1.symm
  · rw [if_neg same, holds.children]
    constructor
    · rintro ⟨sibling, member, named⟩
      exact ⟨sibling, List.mem_append_left _ member, named⟩
    · rintro ⟨sibling, member, named⟩
      rcases List.mem_append.mp member with old | new
      · exact ⟨sibling, old, named⟩
      · rw [List.mem_singleton.mp new] at named
        exact absurd named.2.symm same

theorem Holds.child_apart {node : RunNode} (holds : Holds state nodes)
    (separate : Separate (nodes ++ [node])) {parent child : String}
    (member : child ∈ state.childIds parent) : child ≠ node.id := by
  rcases (holds.children _ _).mp member with ⟨sibling, inNodes, rfl, _⟩
  exact apart_of_separate separate sibling inNodes

theorem Holds.child_found {node : RunNode} (holds : Holds state nodes)
    (separate : Separate (nodes ++ [node])) {parent child : String}
    (member : child ∈ state.childIds parent) :
    ∃ sibling, state.nodes.get? child = some sibling ∧ sibling.stamp ≠ node.stamp := by
  rcases (holds.children _ _).mp member with ⟨sibling, inNodes, rfl, _⟩
  refine ⟨sibling, holds.get?_of_mem inNodes, fun same => ?_⟩
  exact apart_of_separate separate sibling inNodes (congrArg RunNode.id
    (separate.eq_of_stamp (List.mem_append_left _ inNodes)
      (List.mem_append_right _ List.mem_cons_self) same))

/-- The place of a new run parts its siblings into those that lead it and those it leads. -/
theorem Holds.placeOf_parts {node : RunNode} (holds : Holds state nodes)
    (separate : Separate (nodes ++ [node])) :
    (∀ child ∈ (state.childIds node.parentId).take (placeOf state node), ∀ first,
      state.nodes.get? child = some first → first.Leads node) ∧
    ∀ child ∈ (state.childIds node.parentId).drop (placeOf state node), ∀ second,
      state.nodes.get? child = some second → node.Leads second := by
  have wanted : ∀ child ∈ state.childIds node.parentId, ∀ sibling,
      state.nodes.get? child = some sibling →
        (((state.nodes.set node.id node).get? child).any
          (fun sibling => decide (compareRuns node sibling < 0)) = true ↔
            node.Leads sibling) := by
    intro child member sibling found
    rw [OrderedMap.get?_set_of_ne _ (holds.child_apart separate member), found, Option.any_some,
      decide_eq_true_eq]
    rfl
  have parts := @findIdx_parts _ _ _ (fun id => ((state.nodes.set node.id node).get? id).any
    fun sibling => decide (compareRuns node sibling < 0)) (holds.sorted node.parentId) (by
    intro left first right second leads
    rcases holds.child_found separate first with ⟨leftRun, leftFound, _⟩
    rcases holds.child_found separate second with ⟨rightRun, rightFound, _⟩
    rw [wanted left first leftRun leftFound, wanted right second rightRun rightFound]
    exact fun before => before.trans (leads leftRun rightRun leftFound rightFound))
  constructor
  · intro child member first found
    have inside := List.mem_of_mem_take member
    rcases holds.child_found separate inside with ⟨sibling, held, stamp⟩
    rw [found] at held
    cases held
    apply leads_of_not (Ne.symm stamp)
    rw [← wanted child inside first found, Bool.not_eq_true]
    exact parts.1 child member
  · intro child member second found
    exact (wanted child (List.mem_of_mem_drop member) second found).mp (parts.2 child member)

theorem pairwise_leads_withRun {node : RunNode} {ids : List String}
    (different : ∀ id ∈ ids, id ≠ node.id)
    (sorted : ids.Pairwise fun left right => ∀ first second,
      state.nodes.get? left = some first → state.nodes.get? right = some second →
        first.Leads second) :
    ids.Pairwise fun left right => ∀ first second,
      (state.withRun node).nodes.get? left = some first →
      (state.withRun node).nodes.get? right = some second → first.Leads second := by
  apply sorted.imp_of_mem
  intro left right leftMember rightMember leads first second
  rw [get?_withRun_of_ne (different left leftMember),
    get?_withRun_of_ne (different right rightMember)]
  exact leads first second

theorem Holds.sorted_withRun {node : RunNode} (holds : Holds state nodes)
    (separate : Separate (nodes ++ [node])) (parent : String) :
    ((state.withRun node).childIds parent).Pairwise fun left right => ∀ first second,
      (state.withRun node).nodes.get? left = some first →
      (state.withRun node).nodes.get? right = some second → first.Leads second := by
  have here := get?_withRun_self state node
  rw [childIds_withRun state node]
  by_cases same : parent = node.parentId
  · have different : ∀ child ∈ state.childIds node.parentId, child ≠ node.id :=
      fun child member => holds.child_apart separate member
    rcases holds.placeOf_parts separate with ⟨ahead, behind⟩
    have sorted := holds.sorted node.parentId
    rw [← List.take_append_drop (placeOf state node) (state.childIds node.parentId),
      List.pairwise_append] at sorted
    have early : ∀ child ∈ (state.childIds node.parentId).take (placeOf state node),
        child ≠ node.id := fun child member => different child (List.mem_of_mem_take member)
    have late : ∀ child ∈ (state.childIds node.parentId).drop (placeOf state node),
        child ≠ node.id := fun child member => different child (List.mem_of_mem_drop member)
    rw [if_pos same, List.pairwise_append, List.pairwise_cons]
    refine ⟨pairwise_leads_withRun early sorted.1,
      ⟨fun child member first second => ?_, pairwise_leads_withRun late sorted.2.1⟩,
      fun left leftMember right rightMember first second => ?_⟩
    · rw [here, get?_withRun_of_ne (late child member)]
      intro self found
      cases self
      exact behind child member second found
    · rw [get?_withRun_of_ne (early left leftMember)]
      rcases List.mem_cons.mp rightMember with rfl | later
      · rw [here]
        intro found self
        cases self
        exact ahead left leftMember first found
      · rw [get?_withRun_of_ne (late right later)]
        exact sorted.2.2 left leftMember right later first second
  · rw [if_neg same]
    exact pairwise_leads_withRun (fun id member => holds.child_apart separate member)
      (holds.sorted parent)

theorem Holds.insert {node : RunNode} (holds : Holds state nodes)
    (separate : Separate (nodes ++ [node])) :
    Holds (state.applyInsertRun node) (nodes ++ [node]) := by
  have listed := holds.listed.insert node
  rw [applyInsertRun, if_neg (holds.fresh separate)] at listed ⊢
  exact {
    listed := listed
    found := holds.found_withRun separate
    children := holds.children_withRun
    sorted := holds.sorted_withRun separate }

theorem holds_built (separate : Separate nodes) : Holds (built nodes) nodes := by
  induction nodes using List.reverseRecOn with
  | nil => exact holds_createDocState
  | append_singleton before node induction =>
      rw [built_append]
      exact (induction (separate.sublist (List.sublist_append_left _ _))).insert separate

end Holds

/-! ## The same tree -/

/-- Two documents have the same runs below the same parents, in the same order. -/
def SameTree (left right : DocState) : Prop :=
  (∀ id, right.nodes.get? id = left.nodes.get? id) ∧ ∀ id, right.childIds id = left.childIds id

section SameTree

variable {left right : DocState}

theorem SameTree.keys_length (same : SameTree left right) :
    right.nodes.keys.length = left.nodes.keys.length := by
  have rightNodup : right.nodes.keys.Nodup := right.nodes.nodup
  have leftNodup : left.nodes.keys.Nodup := left.nodes.nodup
  apply List.Perm.length_eq
  rw [List.perm_ext_iff_of_nodup rightNodup leftNodup]
  intro id
  rw [OrderedMap.mem_keys_iff, OrderedMap.mem_keys_iff, same.1]

theorem SameTree.dfs (same : SameTree left right) (id : String) : right.dfs id = left.dfs id := by
  rw [DocState.dfs, DocState.dfs, same.keys_length, funext same.1, funext same.2]

theorem SameTree.reconstruct (same : SameTree left right) :
    right.reconstruct = left.reconstruct := by
  rw [DocState.reconstruct, DocState.reconstruct, visibleRuns, visibleRuns, same.dfs]

theorem SameTree.order (same : SameTree left right) : right.order = left.order := by
  rw [DocState.order, DocState.order, same.dfs]

end SameTree

theorem Holds.same_tree {left right : DocState} {nodes others : List RunNode}
    (leftHolds : Holds left nodes) (rightHolds : Holds right others) (perm : others.Perm nodes) :
    SameTree left right := by
  have found : ∀ id, right.nodes.get? id = left.nodes.get? id := by
    intro id
    apply Option.ext
    intro node
    rw [rightHolds.found, leftHolds.found, perm.mem_iff]
  refine ⟨found, fun id => ?_⟩
  have rightSorted := rightHolds.sorted id
  simp only [found] at rightSorted
  apply List.Perm.eq_of_pairwise ?_ rightSorted (leftHolds.sorted id)
  · rw [List.perm_ext_iff_of_nodup (rightHolds.listed.parents.nodup id)
      (leftHolds.listed.parents.nodup id)]
    intro child
    rw [rightHolds.children, leftHolds.children]
    simp only [perm.mem_iff]
  · intro first second inRight inLeft forward backward
    rcases (rightHolds.children _ _).mp inRight with ⟨firstRun, firstMember, rfl, _⟩
    rcases (leftHolds.children _ _).mp inLeft with ⟨secondRun, secondMember, rfl, _⟩
    have firstFound := leftHolds.get?_of_mem (perm.subset firstMember)
    have secondFound := leftHolds.get?_of_mem secondMember
    exact absurd (backward _ _ secondFound firstFound) (forward _ _ firstFound secondFound).asymm

end DocState

end Ebb.Text
