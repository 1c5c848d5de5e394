import Ebb.Text.SiblingOrder

namespace Ebb.Text

/-! Inserts in any order. The tree does not depend on the order; the position index does where
visible runs lie below tombstones, because such a run's span goes to the end of the index when
the run arrives. -/

/-- A run lies below another, or is that run. -/
inductive Under (nodes : List RunNode) : RunNode → RunNode → Prop
  | self (node : RunNode) : Under nodes node node
  | step {upper parent lower : RunNode} (above : Under nodes upper parent) (member : lower ∈ nodes)
      (listed : lower.parentId = parent.id) : Under nodes upper lower

/-- The parent of every run is known, or comes before the run. -/
def ParentsFirst : List String → List RunNode → Prop
  | _, [] => True
  | known, node :: rest => node.parentId ∈ known ∧ ParentsFirst (node.id :: known) rest

/-- A visible run below a tombstone has no visible run behind it other than below it: siblings
that part it from a run behind it have none below the later one. -/
def TombstonesLast (nodes : List RunNode) : Prop :=
  ∀ run ∈ nodes, run.deleted = false →
    (∃ parent ∈ nodes, parent.id = run.parentId ∧ parent.deleted = true) →
      ∀ left ∈ nodes, ∀ right ∈ nodes, left.parentId = right.parentId → left.Leads right →
        Under nodes left run → ∀ other ∈ nodes, other.deleted = false → ¬ Under nodes right other

/-- No run comes behind a sibling that lies below itself, where their parent is visible. -/
def LoopsLast (nodes : List RunNode) : Prop :=
  ∀ left ∈ nodes, ∀ right ∈ nodes, left.parentId = right.parentId → left.Leads right →
    ∀ parent ∈ nodes, parent.id = left.parentId → parent.deleted = false →
      ¬ Under nodes left parent

/-! ## Parents first -/

section ParentsFirst

variable {known others : List String} {nodes before after : List RunNode}

theorem ParentsFirst.mono (first : ParentsFirst known nodes) (more : ∀ id ∈ known, id ∈ others) :
    ParentsFirst others nodes := by
  induction nodes generalizing known others with
  | nil => trivial
  | cons node rest induction =>
      refine ⟨more _ first.1, induction first.2 fun id member => ?_⟩
      rcases List.mem_cons.mp member with rfl | later
      · exact List.mem_cons_self
      · exact List.mem_cons_of_mem _ (more id later)

theorem parentsFirst_append : ParentsFirst known (before ++ after) ↔
    ParentsFirst known before ∧ ParentsFirst (before.map RunNode.id ++ known) after := by
  induction before generalizing known with
  | nil => exact (and_iff_right trivial).symm
  | cons node rest induction =>
      rw [List.cons_append, ParentsFirst, ParentsFirst, induction, and_assoc]
      apply and_congr_right
      intro _
      apply and_congr_right
      intro _
      constructor
      · intro first
        apply first.mono
        intro id member
        simp only [List.map_cons, List.cons_append, List.mem_append, List.mem_cons] at member ⊢
        grind
      · intro first
        apply first.mono
        intro id member
        simp only [List.map_cons, List.cons_append, List.mem_append, List.mem_cons] at member ⊢
        grind

theorem ParentsFirst.parent (first : ParentsFirst known nodes) {node : RunNode}
    (member : node ∈ nodes) :
    node.parentId ∈ known ∨ ∃ parent ∈ nodes, parent.id = node.parentId := by
  rcases List.append_of_mem member with ⟨before, after, whole⟩
  rw [whole, parentsFirst_append] at first
  have here := first.2.1
  rw [List.mem_append, List.mem_map] at here
  rcases here with ⟨parent, early, named⟩ | inKnown
  · rw [whole]
    exact .inr ⟨parent, List.mem_append_left _ early, named⟩
  · exact .inl inKnown

theorem ParentsFirst.filter (first : ParentsFirst known nodes) {keep : RunNode → Bool}
    (closed : ∀ node ∈ nodes, keep node = true → ∀ parent ∈ nodes, parent.id = node.parentId →
      keep parent = true)
    (avoids : ∀ node ∈ nodes, keep node = true → node.parentId ∈ known → node.parentId ∈ others) :
    ParentsFirst others (nodes.filter keep) := by
  induction nodes generalizing known others with
  | nil => trivial
  | cons head rest induction =>
      have closedRest : ∀ node ∈ rest, keep node = true → ∀ parent ∈ rest,
          parent.id = node.parentId → keep parent = true := fun node member kept parent inRest =>
        closed node (List.mem_cons_of_mem _ member) kept parent (List.mem_cons_of_mem _ inRest)
      rw [List.filter_cons]
      split
      · next kept =>
          refine ⟨avoids head List.mem_cons_self kept first.1, ?_⟩
          apply induction first.2 closedRest
          intro node member keptNode inKnown
          rcases List.mem_cons.mp inKnown with same | older
          · rw [same]
            exact List.mem_cons_self
          · exact List.mem_cons_of_mem _
              (avoids node (List.mem_cons_of_mem _ member) keptNode older)
      · next dropped =>
          apply induction first.2 closedRest
          intro node member keptNode inKnown
          rcases List.mem_cons.mp inKnown with same | older
          · exact absurd (closed node (List.mem_cons_of_mem _ member) keptNode head
              List.mem_cons_self same.symm) dropped
          · exact avoids node (List.mem_cons_of_mem _ member) keptNode older

theorem parentsFirst_of_sublist (nodup : (nodes.map RunNode.id).Nodup)
    (ordered : ∀ node ∈ nodes, node.parentId ∈ known ∨
      [node.parentId, node.id].Sublist (nodes.map RunNode.id)) : ParentsFirst known nodes := by
  induction nodes generalizing known with
  | nil => trivial
  | cons head rest induction =>
      rw [List.map_cons, List.nodup_cons] at nodup
      refine ⟨?_, induction nodup.2 fun node member => ?_⟩
      · rcases ordered head List.mem_cons_self with inKnown | before
        · exact inKnown
        · rw [List.map_cons, Forest.pair_sublist_cons] at before
          rcases before with ⟨_, later⟩ | inside
          · exact absurd later nodup.1
          · exact absurd (inside.subset (List.mem_cons_of_mem _ List.mem_cons_self)) nodup.1
      · rcases ordered node (List.mem_cons_of_mem _ member) with inKnown | before
        · exact .inl (List.mem_cons_of_mem _ inKnown)
        · rw [List.map_cons, Forest.pair_sublist_cons] at before
          rcases before with ⟨same, _⟩ | inside
          · rw [same]
            exact .inl List.mem_cons_self
          · exact .inr inside

end ParentsFirst

/-! ## Descent -/

section Descent

variable {nodes : List RunNode}

theorem Under.mono {more : List RunNode} (sublist : ∀ node ∈ nodes, node ∈ more)
    {upper lower : RunNode} (under : Under nodes upper lower) : Under more upper lower := by
  induction under with
  | self => exact .self _
  | step _ member listed induction => exact .step induction (sublist _ member) listed

variable {upper lower : RunNode}

theorem Under.trans {middle : RunNode} (above : Under nodes upper middle)
    (below : Under nodes middle lower) : Under nodes upper lower := by
  induction below with
  | self => exact above
  | step _ member listed induction => exact .step induction member listed

theorem Under.mem (under : Under nodes upper lower) (member : upper ∈ nodes) : lower ∈ nodes := by
  cases under with
  | self => exact member
  | step _ inNodes _ => exact inNodes

theorem Under.eq_of_self (under : Under nodes upper lower) (separate : Separate nodes)
    (member : upper ∈ nodes) (own : lower.parentId = lower.id) :
    upper = lower := by
  induction under with
  | self => rfl
  | step above inNodes listed induction =>
      have same := separate.eq_of_id (above.mem member) inNodes (listed.symm.trans own)
      subst same
      exact induction own

namespace DocState

variable {state : DocState} {tree : Forest String}

theorem Holds.under_iff (holds : Holds state nodes) (separate : Separate nodes)
    {upper lower : RunNode} (upperMember : upper ∈ nodes) (lowerMember : lower ∈ nodes) :
    (∃ steps, Forest.Below state.childIds steps upper.id lower.id) ↔ Under nodes upper lower := by
  constructor
  · rintro ⟨steps, below⟩
    induction steps generalizing lower with
    | zero =>
        rw [separate.eq_of_id upperMember lowerMember below]
        exact .self lower
    | succ steps induction =>
        rcases below with ⟨parent, above, child⟩
        rcases (holds.children _ _).mp child with ⟨node, member, named, listed⟩
        rw [separate.eq_of_id member lowerMember named] at listed
        cases steps with
        | zero =>
            cases above
            exact .step (.self upper) lowerMember listed
        | succ steps =>
            have atParent := above
            rcases above with ⟨_, _, parentChild⟩
            rcases (holds.children _ _).mp parentChild with ⟨parentNode, inNodes, rfl, _⟩
            exact .step (induction inNodes atParent) lowerMember listed
  · intro under
    clear lowerMember
    induction under with
    | self => exact ⟨0, rfl⟩
    | step _ member listed induction =>
        rcases induction with ⟨steps, below⟩
        exact ⟨steps + 1, _, below, (holds.children _ _).mpr ⟨_, member, rfl, listed⟩⟩

theorem Holds.leads (holds : Holds state nodes) {left right : RunNode} (leftMember : left ∈ nodes)
    (rightMember : right ∈ nodes) {parent : String}
    (pair : [left.id, right.id].Sublist (state.childIds parent)) : left.Leads right :=
  List.pairwise_iff_forall_sublist.mp (holds.sorted parent) pair left right
    (holds.get?_of_mem leftMember) (holds.get?_of_mem rightMember)

theorem Holds.parted (holds : Holds state nodes) (separate : Separate nodes)
    (rooted : Rooted state tree) {first second : RunNode} (firstMember : first ∈ nodes)
    (secondMember : second ∈ nodes) (ordered : [first.id, second.id].Sublist tree.order) :
    (∃ child ∈ nodes, child.parentId = first.id) ∨
      ∃ left ∈ nodes, ∃ right ∈ nodes, left.parentId = right.parentId ∧ left.Leads right ∧
        Under nodes left first ∧ Under nodes right second := by
  rcases rooted.follows.below_or_beside ordered with ⟨steps, below⟩ | ⟨_, rfl | listed, beside⟩
  · rcases Forest.child_of_below below with ⟨child, member, _⟩
    rcases (holds.children _ _).mp member with ⟨node, inNodes, _, parent⟩
    exact .inl ⟨node, inNodes, parent⟩
  · rcases beside with ⟨left, right, pair, _⟩
    rw [rooted.top] at pair
    exact absurd pair.length_le (by simp)
  · rcases listed with ⟨parent, _, rfl⟩
    rcases beside with ⟨left, right, pair, leftBelow, rightBelow⟩
    have leftMember := pair.subset List.mem_cons_self
    have rightMember := pair.subset (List.mem_cons_of_mem _ List.mem_cons_self)
    rcases (holds.children _ _).mp leftMember with ⟨leftRun, leftIn, rfl, leftParent⟩
    rcases (holds.children _ _).mp rightMember with ⟨rightRun, rightIn, rfl, rightParent⟩
    exact .inr ⟨leftRun, leftIn, rightRun, rightIn, leftParent.trans rightParent.symm,
      holds.leads leftIn rightIn pair,
      (holds.under_iff separate leftIn firstMember).mp leftBelow,
      (holds.under_iff separate rightIn secondMember).mp rightBelow⟩

theorem Holds.ordered (holds : Holds state nodes) (separate : Separate nodes)
    (rooted : Rooted state tree) {left right first second : RunNode} (leftMember : left ∈ nodes)
    (rightMember : right ∈ nodes) (parent : left.parentId ∈ tree.order)
    (siblings : left.parentId = right.parentId) (leads : left.Leads right)
    (firstUnder : Under nodes left first) (secondUnder : Under nodes right second) :
    [first.id, second.id].Sublist tree.order := by
  have leftChild : left.id ∈ state.childIds left.parentId :=
    (holds.children _ _).mpr ⟨left, leftMember, rfl, rfl⟩
  have rightChild : right.id ∈ state.childIds left.parentId :=
    (holds.children _ _).mpr ⟨right, rightMember, rfl, siblings.symm⟩
  have different : left.id ≠ right.id := by
    intro same
    rw [separate.eq_of_id leftMember rightMember same] at leads
    exact leads.asymm leads
  have pair : [left.id, right.id].Sublist (state.childIds left.parentId) := by
    rcases Forest.pair_sublist_total leftChild rightChild different with forward | backward
    · exact forward
    · exact absurd (holds.leads rightMember leftMember backward) leads.asymm
  apply rooted.follows.sublist_of_beside (.inr ⟨left.parentId, parent, rfl⟩)
  exact ⟨left.id, right.id, pair,
    (holds.under_iff separate leftMember (firstUnder.mem leftMember)).mpr firstUnder,
    (holds.under_iff separate rightMember (secondUnder.mem rightMember)).mpr secondUnder⟩

end DocState

end Descent

/-! ## Parents first, and the index -/

namespace DocState

section Building

variable {nodes before after : List RunNode} {node : RunNode}

theorem stored_of_parentsFirst (separate : Separate nodes)
    (first : ParentsFirst [rootId] nodes) (member : node ∈ nodes) :
    ((built nodes).nodes.get? node.parentId).isSome = true := by
  rw [(holds_built separate).stored_iff]
  rcases first.parent member with inKnown | above
  · exact .inl (List.mem_singleton.mp inKnown)
  · exact .inr above

theorem stored_of_next (separate : Separate (before ++ [node]))
    (first : ParentsFirst [rootId] (before ++ [node])) :
    ((built before).nodes.get? node.parentId).isSome = true := by
  rw [(holds_built (separate.sublist (List.sublist_append_left _ _))).stored_iff]
  have here := (parentsFirst_append.mp first).2.1
  rw [List.mem_append, List.mem_singleton, List.mem_map] at here
  exact here.symm

theorem fresh_of_next (separate : Separate (before ++ [node])) :
    ¬ ((built before).nodes.get? node.id).isSome = true := by
  rw [(holds_built (separate.sublist (List.sublist_append_left _ _))).stored_iff]
  have ids := separate.ids
  rw [List.map_append, List.nodup_append] at ids
  rintro (root | ⟨other, member, same⟩)
  · exact separate.notRoot node (List.mem_append_right _ List.mem_cons_self) root
  · exact ids.2.2 other.id (List.mem_map_of_mem member) node.id List.mem_cons_self same

theorem childless_of_next (separate : Separate (before ++ [node]))
    (first : ParentsFirst [rootId] (before ++ [node])) :
    ¬ ∃ child ∈ before ++ [node], child.parentId = node.id := by
  have fresh := fresh_of_next separate
  rintro ⟨child, member, listed⟩
  rw [← listed] at fresh
  rcases List.mem_append.mp member with old | new
  · exact fresh (stored_of_parentsFirst (separate.sublist (List.sublist_append_left _ _))
      (parentsFirst_append.mp first).1 old)
  · rw [List.mem_singleton.mp new] at fresh
    exact fresh (stored_of_next separate first)

theorem grown_built (separate : Separate nodes) (first : ParentsFirst [rootId] nodes) :
    ∃ tree, Grown (built nodes) tree := by
  induction nodes using List.reverseRecOn with
  | nil =>
      rcases sound_createDocState with ⟨tree, grown, _⟩
      exact ⟨tree, grown⟩
  | append_singleton before node induction =>
      rcases induction (separate.sublist (List.sublist_append_left _ _))
        (parentsFirst_append.mp first).1 with ⟨tree, grown⟩
      have fresh := fresh_of_next separate
      rw [built_append, applyInsertRun, if_neg fresh]
      exact ⟨_, (grown.withRun fresh (stored_of_next separate first)).reindex _⟩

theorem trailing_of_parted (separate : Separate (before ++ [node]))
    (first : ParentsFirst [rootId] (before ++ [node])) (live : node.deleted = false)
    (last : ∀ left ∈ before ++ [node], ∀ right ∈ before ++ [node],
      left.parentId = right.parentId → left.Leads right → Under (before ++ [node]) left node →
        ∀ other ∈ before, other.deleted = false → ¬ Under (before ++ [node]) right other) :
    Trailing (built before) node := by
  have fresh := fresh_of_next separate
  have holds := holds_built separate
  rcases grown_built separate first with ⟨tree, grown⟩
  have member : node ∈ before ++ [node] := List.mem_append_right _ List.mem_cons_self
  have found := holds.get?_of_mem member
  have visible : shown (built (before ++ [node])).nodes node.id = some node := by
    rw [shown_of_live grown found live, if_neg (separate.notRoot node member)]
  have inTree : node.id ∈ tree.order := (grown.stored _).mpr (found ▸ rfl)
  rcases List.append_of_mem inTree with ⟨ahead, behind, order⟩
  have nothing : behind.filterMap (shown (built (before ++ [node])).nodes) = [] := by
    rw [List.filterMap_eq_nil_iff]
    intro id inside
    rw [Option.eq_none_iff_forall_ne_some]
    intro other isShown
    have otherFound := (shown_eq_some.mp isShown).1
    have seen := (shown_eq_some.mp isShown).2
    have named := grown.named id other otherFound
    rw [RunNode.visible, Bool.and_eq_true, Bool.not_eq_true', bne_iff_ne] at seen
    have nodup := grown.nodup
    rw [order, List.nodup_append, List.nodup_cons] at nodup
    have otherMember : other ∈ before ++ [node] := by
      rcases (holds.found id other).mp otherFound with ⟨root, _⟩ | ⟨listed, _⟩
      · exact absurd (named.trans root) seen.2
      · exact listed
    have early : other ∈ before := by
      rcases List.mem_append.mp otherMember with old | new
      · exact old
      · rw [List.mem_singleton.mp new] at named
        exact absurd (named ▸ inside) nodup.2.1.1
    have ordered : [node.id, other.id].Sublist tree.order := by
      rw [order, named]
      apply List.Sublist.trans _ (List.sublist_append_right _ _)
      exact List.Sublist.cons_cons _ (List.singleton_sublist.mpr inside)
    rcases holds.parted separate grown.rooted member otherMember ordered with
      children | ⟨left, leftIn, right, rightIn, siblings, leads, leftUnder, rightUnder⟩
    · exact childless_of_next separate first children
    · exact last left leftIn right rightIn siblings leads leftUnder other early seen.1 rightUnder
  have runs : (built (before ++ [node])).visibleRuns =
      ((built before).withRun node).visibleRuns := by
    rw [built_append, applyInsertRun, if_neg fresh]
    rfl
  rw [Trailing, ← runs, grown.visibleRuns, order, List.filterMap_append, List.filterMap_cons,
    visible, nothing]
  exact List.getLast?_concat

theorem sound_built (separate : Separate nodes) (first : ParentsFirst [rootId] nodes)
    (last : ∀ before node after, nodes = before ++ node :: after → node.deleted = false →
      (∃ parent ∈ nodes, parent.id = node.parentId ∧ parent.deleted = true) →
        ∀ left ∈ nodes, ∀ right ∈ nodes, left.parentId = right.parentId → left.Leads right →
          Under nodes left node → ∀ other ∈ before, other.deleted = false →
            ¬ Under nodes right other) : Sound (built nodes) := by
  have steps : ∀ before, before <+: nodes → Sound (built before) := by
    intro before ahead
    induction before using List.reverseRecOn with
    | nil => exact sound_createDocState
    | append_singleton before node induction =>
        rcases ahead with ⟨after, whole⟩
        have sublist : (before ++ [node]).Sublist nodes := by
          rw [← whole]
          exact List.sublist_append_left _ _
        have inNodes : ∀ other ∈ before ++ [node], other ∈ nodes := fun _ member =>
          sublist.subset member
        have separate := separate.sublist sublist
        have first : ParentsFirst [rootId] (before ++ [node]) := by
          rw [← whole] at first
          exact (parentsFirst_append.mp first).1
        rw [built_append]
        apply (induction ⟨node :: after, by rw [← whole, List.append_assoc]; rfl⟩).insert
        refine .inr ⟨stored_of_next separate first, ?_⟩
        cases live : node.deleted with
        | true => exact .inl live
        | false =>
            have earlier := separate.sublist (List.sublist_append_left _ _)
            rcases Option.isSome_iff_exists.mp (stored_of_next separate first) with ⟨parent, found⟩
            cases dead : parent.deleted with
            | false => exact .inr (.inl ⟨parent, found, dead⟩)
            | true =>
                have above : parent ∈ before ∧ parent.id = node.parentId := by
                  rcases ((holds_built earlier).found _ _).mp found with ⟨_, rfl⟩ | listed
                  · cases dead
                  · exact listed
                refine .inr (.inr (trailing_of_parted separate first live ?_))
                intro left leftIn right rightIn siblings leads leftUnder other early shows under
                refine last before node after (by rw [← whole, List.append_assoc]; rfl) live
                  ⟨parent, inNodes parent (List.mem_append_left _ above.1), above.2, dead⟩
                  left (inNodes left leftIn) right (inNodes right rightIn) siblings leads
                  (leftUnder.mono inNodes) other early shows (under.mono inNodes)
  exact steps nodes (List.prefix_refl nodes)

theorem SameTree.index {left right : DocState} (same : SameTree left right)
    (leftSound : Sound left) (rightSound : Sound right) : right.index = left.index := by
  rcases leftSound with ⟨_, leftGrown, leftLists⟩
  rcases rightSound with ⟨_, rightGrown, rightLists⟩
  have spans : right.index.spans = left.index.spans := by
    rw [rightLists.spans_eq rightGrown, leftLists.spans_eq leftGrown, same.order]
    apply spansOf_congr
    intro id _
    rw [shown, shown, same.1]
  have total : right.index.totalLength = left.index.totalLength := by
    rw [rightLists.total, leftLists.total, spans]
  generalize right.index = one at spans total ⊢
  generalize left.index = two at spans total ⊢
  cases one
  cases two
  cases spans
  cases total
  rfl

end Building

/-! ## Two orders of some inserts -/

section Orders

variable {nodes before after : List RunNode} {node : RunNode}

def runsInOrder (state : DocState) : List RunNode :=
  (state.dfs rootId).filter fun node => node.id != rootId

theorem ids_runsInOrder (state : DocState) :
    state.runsInOrder.map RunNode.id = state.order.filter fun id => id != rootId := by
  rw [runsInOrder, order, List.filter_map]
  rfl

theorem perm_runsInOrder (separate : Separate nodes) (first : ParentsFirst [rootId] nodes) :
    (built nodes).runsInOrder.Perm nodes := by
  rcases grown_built separate first with ⟨tree, grown⟩
  have holds := holds_built separate
  have ids : ((built nodes).runsInOrder.map RunNode.id).Nodup := by
    rw [ids_runsInOrder]
    exact grown.order_nodup.filter _
  rw [List.perm_ext_iff_of_nodup (List.Nodup.of_map _ ids) (List.Nodup.of_map _ separate.ids)]
  intro node
  rw [runsInOrder, List.mem_filter, grown.rooted.dfs, List.mem_filterMap, bne_iff_ne]
  constructor
  · rintro ⟨⟨id, _, found⟩, notRoot⟩
    rcases (holds.found id node).mp found with ⟨root, _⟩ | ⟨member, _⟩
    · exact absurd ((grown.named id node found).trans root) notRoot
    · exact member
  · intro member
    have found := holds.get?_of_mem member
    exact ⟨⟨node.id, (grown.stored _).mpr (found ▸ rfl), found⟩, separate.notRoot node member⟩

theorem pair_runsInOrder {left right : RunNode} (leftNotRoot : left.id ≠ rootId)
    (rightNotRoot : right.id ≠ rootId) {state : DocState}
    (ordered : [left.id, right.id].Sublist state.order) :
    [left.id, right.id].Sublist (state.runsInOrder.map RunNode.id) := by
  rw [ids_runsInOrder]
  have filtered := ordered.filter fun id => id != rootId
  have both : [left.id, right.id].filter (fun id => id != rootId) = [left.id, right.id] := by
    simp [leftNotRoot, rightNotRoot]
  rw [both] at filtered
  exact filtered

theorem parentsFirst_runsInOrder (separate : Separate nodes)
    (first : ParentsFirst [rootId] nodes) :
    ParentsFirst [rootId] (built nodes).runsInOrder := by
  rcases grown_built separate first with ⟨tree, grown⟩
  have holds := holds_built separate
  have perm := perm_runsInOrder separate first
  apply parentsFirst_of_sublist ((perm.map _).nodup_iff.mpr separate.ids)
  intro node member
  have inNodes := perm.subset member
  rcases first.parent inNodes with root | ⟨parent, parentIn, named⟩
  · exact .inl root
  · refine .inr ?_
    rw [← named]
    apply pair_runsInOrder (separate.notRoot parent parentIn) (separate.notRoot node inNodes)
    rw [grown.order_eq]
    apply grown.follows.parent_first ((grown.stored _).mpr (holds.get?_of_mem parentIn ▸ rfl))
    exact (holds.children _ _).mpr ⟨node, inNodes, rfl, named.symm⟩

theorem ordered_of_siblings (separate : Separate nodes) (first : ParentsFirst [rootId] nodes)
    {left right upper lower : RunNode} (leftIn : left ∈ nodes) (rightIn : right ∈ nodes)
    (siblings : left.parentId = right.parentId) (leads : left.Leads right)
    (leftUnder : Under nodes left upper) (rightUnder : Under nodes right lower) :
    [upper.id, lower.id].Sublist (built nodes).order := by
  rcases grown_built separate first with ⟨tree, grown⟩
  rw [grown.order_eq]
  have above := (grown.stored _).mpr (stored_of_parentsFirst separate first leftIn)
  exact (holds_built separate).ordered separate grown.rooted leftIn rightIn above siblings leads
    leftUnder rightUnder

theorem sound_runsInOrder (separate : Separate nodes) (first : ParentsFirst [rootId] nodes) :
    Sound (built (built nodes).runsInOrder) := by
  have perm := perm_runsInOrder separate first
  have again := separate.perm perm
  apply sound_built again (parentsFirst_runsInOrder separate first)
  intro before node after whole live _ left leftIn right rightIn siblings leads leftUnder other
    early _ under
  have member : ∀ {run : RunNode}, run ∈ (built nodes).runsInOrder → run ∈ nodes :=
    fun inOrder => perm.subset inOrder
  have nodeIn : node ∈ (built nodes).runsInOrder := leftUnder.mem leftIn
  have otherIn : other ∈ (built nodes).runsInOrder := under.mem rightIn
  have forward := pair_runsInOrder (again.notRoot node nodeIn) (again.notRoot other otherIn)
    (ordered_of_siblings separate first (member leftIn) (member rightIn) siblings leads
      (leftUnder.mono fun _ => member) (under.mono fun _ => member))
  have backward : [other.id, node.id].Sublist
      ((built nodes).runsInOrder.map RunNode.id) := by
    rw [whole, List.map_append, List.map_cons]
    exact Forest.pair_sublist_append.mpr
      (.inr (.inl ⟨List.mem_map_of_mem early, List.mem_cons_self⟩))
  exact Forest.pair_sublist_asymm again.ids forward backward

theorem spans_applyInsertRun (state : DocState) (node : RunNode) :
    state.index.spans.Sublist (state.applyInsertRun node).index.spans := by
  rw [applyInsertRun]
  split
  · exact List.Sublist.refl _
  · dsimp only
    split
    · exact List.Sublist.refl _
    · generalize (state.withRun node).findSpanInsertIndex node = place
      have parts := (List.Sublist.refl (state.index.spans.take place)).append
        (List.sublist_cons_self node.span (state.index.spans.drop place))
      rw [List.take_append_drop] at parts
      exact parts

theorem spans_built_append (before after : List RunNode) :
    (built before).index.spans.Sublist (built (before ++ after)).index.spans := by
  induction after using List.reverseRecOn with
  | nil => rw [List.append_nil]
  | append_singleton rest node induction =>
      rw [← List.append_assoc, built_append]
      exact induction.trans (spans_applyInsertRun _ node)

theorem mem_spans_built (separate : Separate nodes) (span : RunSpan) :
    span ∈ (built nodes).index.spans ↔
      ∃ node ∈ nodes, node.deleted = false ∧ node.span = span := by
  induction nodes using List.reverseRecOn with
  | nil =>
      refine iff_of_false (List.not_mem_nil) ?_
      rintro ⟨_, member, _⟩
      cases member
  | append_singleton before node induction =>
      have fresh := fresh_of_next separate
      have induction := induction (separate.sublist (List.sublist_append_left _ _))
      rw [built_append, applyInsertRun, if_neg fresh]
      simp only [List.mem_append, List.mem_singleton]
      split
      · next dead =>
          rw [induction]
          constructor
          · rintro ⟨other, member, rest⟩
            exact ⟨other, .inl member, rest⟩
          · rintro ⟨other, member | rfl, live, same⟩
            · exact ⟨other, member, live, same⟩
            · rw [dead] at live
              cases live
      · next shows =>
          have live : node.deleted = false := Bool.not_eq_true _ ▸ shows
          dsimp only
          generalize ((built before).withRun node).findSpanInsertIndex node = place
          rw [List.perm_middle.mem_iff, List.take_append_drop, List.mem_cons, induction]
          constructor
          · rintro (rfl | ⟨other, member, rest⟩)
            · exact ⟨node, .inr rfl, live, rfl⟩
            · exact ⟨other, .inl member, rest⟩
          · rintro ⟨other, member | rfl, visible, same⟩
            · exact .inr ⟨other, member, visible, same⟩
            · exact .inl same.symm

theorem spans_below_tombstone (separate : Separate (before ++ [node]))
    (live : node.deleted = false)
    (below : ∃ parent ∈ before, parent.id = node.parentId ∧ parent.deleted = true) :
    (built (before ++ [node])).index.spans = (built before).index.spans ++ [node.span] := by
  have earlier := separate.sublist (List.sublist_append_left _ _)
  have fresh := fresh_of_next separate
  rcases below with ⟨parent, member, named, dead⟩
  have notRoot : node.parentId ≠ rootId := by
    rw [← named]
    exact earlier.notRoot parent member
  have unlisted : ((built before).withRun node).index.spans.findIdx?
      (fun span => span.runId == node.parentId) = none := by
    rw [List.findIdx?_eq_none_iff]
    intro span listed
    change span ∈ (built before).index.spans at listed
    rcases (mem_spans_built earlier span).mp listed with ⟨other, inside, visible, rfl⟩
    apply beq_eq_false_iff_ne.mpr
    intro same
    rw [earlier.eq_of_id inside member (same.trans named.symm), dead] at visible
    cases visible
  have place : ((built before).withRun node).findSpanInsertIndex node =
      (built before).index.spans.length := by
    rw [findSpanInsertIndex, if_neg notRoot, unlisted]
    rfl
  rw [built_append, applyInsertRun, if_neg fresh]
  dsimp only
  rw [if_neg (by rw [live]; exact Bool.false_ne_true), place]
  dsimp only
  rw [List.take_length, List.drop_length]
  rfl

theorem exists_postponed (separate : Separate (before ++ node :: after))
    (first : ParentsFirst [rootId] (before ++ node :: after)) :
    ∃ early late, (before ++ (early ++ node :: late)).Perm (before ++ node :: after) ∧
      ParentsFirst [rootId] (before ++ (early ++ node :: late)) ∧
      ∀ other ∈ after, ¬ Under (before ++ node :: after) node other → other ∈ early := by
  classical
  have whole : ∀ other ∈ after, other ∈ before ++ node :: after := fun other member =>
    List.mem_append_right _ (List.mem_cons_of_mem _ member)
  rcases parentsFirst_append.mp first with ⟨firstBefore, here, firstAfter⟩
  refine ⟨after.filter fun other => !decide (Under (before ++ node :: after) node other),
    after.filter fun other => decide (Under (before ++ node :: after) node other), ?_, ?_, ?_⟩
  · apply List.Perm.append_left
    apply List.perm_middle.trans
    apply List.Perm.cons
    exact (List.perm_append_comm).trans (List.filter_append_perm _ _)
  · refine parentsFirst_append.mpr ⟨firstBefore, parentsFirst_append.mpr ⟨?_, ?_, ?_⟩⟩
    · apply firstAfter.filter
      · intro other member kept parent inAfter named
        rw [Bool.not_eq_true', decide_eq_false_iff_not] at kept ⊢
        exact fun under => kept (.step under (whole other member) named.symm)
      · intro other member kept inKnown
        rw [Bool.not_eq_true', decide_eq_false_iff_not] at kept
        rcases List.mem_cons.mp inKnown with same | earlier
        · exact absurd (.step (.self node) (whole other member) same) kept
        · exact earlier
    · exact List.mem_append_right _ here
    · apply firstAfter.filter
      · intro other member kept parent inAfter named
        rw [decide_eq_true_eq] at kept ⊢
        cases kept with
        | self =>
            have ids := (separate.sublist (List.sublist_append_right before _)).ids
            rw [List.map_cons, List.nodup_cons] at ids
            exact absurd (List.mem_map_of_mem member) ids.1
        | step under _ listed =>
            have aboveIn := under.mem (List.mem_append_right _ List.mem_cons_self)
            have same := separate.eq_of_id aboveIn (whole parent inAfter)
              (listed.symm.trans named.symm)
            exact same ▸ under
      · intro other _ _ inKnown
        rcases List.mem_cons.mp inKnown with same | earlier
        · rw [same]
          exact List.mem_cons_self
        · exact List.mem_cons_of_mem _ (List.mem_append_right _ earlier)
  · intro other member notUnder
    rw [List.mem_filter, Bool.not_eq_true', decide_eq_false_iff_not]
    exact ⟨member, notUnder⟩

theorem tombstonesLast_of_agree (separate : Separate nodes) (first : ParentsFirst [rootId] nodes)
    (agree : ∀ left right, left.Perm nodes → right.Perm nodes → ParentsFirst [rootId] left →
      ParentsFirst [rootId] right → (built right).index = (built left).index) :
    TombstonesLast nodes := by
  intro node member live dead left leftIn right rightIn siblings leads leftUnder other otherIn
    shows rightUnder
  have perm := perm_runsInOrder separate first
  have again := separate.perm perm
  have firstAgain := parentsFirst_runsInOrder separate first
  have sound := sound_runsInOrder separate first
  have ordered := ordered_of_siblings separate first leftIn rightIn siblings leads leftUnder
    rightUnder
  have tree := (holds_built separate).same_tree (holds_built again) perm
  have inOrder : node ∈ (built nodes).runsInOrder := perm.mem_iff.mpr member
  -- In document order the run comes before the other.
  have forward : [node.span, other.span].Sublist (built (built nodes).runsInOrder).index.spans := by
    rcases sound with ⟨_, grown, lists⟩
    rw [lists.spans_eq grown, tree.order]
    have seen : ∀ run ∈ nodes, run.deleted = false →
        shown (built (built nodes).runsInOrder).nodes run.id = some run := by
      intro run inNodes visible
      have found := (holds_built again).get?_of_mem (perm.mem_iff.mpr inNodes)
      rw [shown_of_live grown found visible, if_neg (separate.notRoot run inNodes)]
    have shownPair := ordered.filterMap (shown (built (built nodes).runsInOrder).nodes)
    rw [List.filterMap_cons, seen node member live, List.filterMap_cons,
      seen other otherIn shows] at shownPair
    exact shownPair.map RunNode.span
  have nodup : ((built (built nodes).runsInOrder).index.spans.map RunSpan.runId).Nodup := by
    rcases sound with ⟨tree, grown, lists⟩
    have pieces := grown.rooted.nodup_pieces
    rw [PieceTable.keys] at pieces
    rw [Sound.spans_pieces ⟨tree, grown, lists⟩, List.map_map]
    exact pieces
  rcases List.append_of_mem inOrder with ⟨before, after, whole⟩
  rw [whole] at perm again firstAgain
  rcases exists_postponed again firstAgain with ⟨early, late, permuted, firstLate, put⟩
  -- Put off, it comes after the other.
  have backward : [other.span, node.span].Sublist
      (built (before ++ (early ++ node :: late))).index.spans := by
    have apart : ¬ Under (before ++ node :: after) node other := by
      intro under
      have through := leftUnder.trans (under.mono fun _ inWhole => perm.subset inWhole)
      have twice := ordered_of_siblings separate first leftIn rightIn siblings leads through
        rightUnder
      rcases grown_built separate first with ⟨_, grown⟩
      exact Forest.pair_sublist_asymm grown.order_nodup twice twice
    have otherEarly : other ∈ before ++ early := by
      rcases List.mem_append.mp (perm.mem_iff.mpr otherIn) with inBefore | later
      · exact List.mem_append_left _ inBefore
      · rcases List.mem_cons.mp later with rfl | inAfter
        · exact absurd (.self _) apart
        · exact List.mem_append_right _ (put other inAfter apart)
    have separateLate := separate.perm (permuted.trans perm)
    have split : before ++ (early ++ node :: late) = (before ++ early ++ [node]) ++ late := by
      simp only [List.append_assoc, List.cons_append, List.nil_append]
    rw [split] at separateLate firstLate ⊢
    have separateHere := separateLate.sublist (List.sublist_append_left _ _)
    have firstHere := (parentsFirst_append.mp firstLate).1
    refine List.Sublist.trans ?_ (spans_built_append (before ++ early ++ [node]) late)
    rcases dead with ⟨parent, parentIn, named, deleted⟩
    have parentEarly : ∃ upper ∈ before ++ early, upper.id = node.parentId ∧
        upper.deleted = true := by
      have here := (parentsFirst_append.mp firstHere).2.1
      rw [List.mem_append, List.mem_map] at here
      rcases here with ⟨upper, inEarly, above⟩ | root
      · have inNodes : upper ∈ nodes := by
          apply (permuted.trans perm).subset
          rw [split]
          exact List.mem_append_left _ (List.mem_append_left _ inEarly)
        have same := separate.eq_of_id inNodes parentIn (above.trans named.symm)
        exact ⟨upper, inEarly, above, same ▸ deleted⟩
      · rw [List.mem_singleton.mp root] at named
        exact absurd named (separate.notRoot parent parentIn)
    rw [spans_below_tombstone separateHere live parentEarly]
    apply Forest.pair_sublist_append.mpr
    refine .inr (.inl ⟨?_, List.mem_cons_self⟩)
    exact (mem_spans_built (separateHere.sublist (List.sublist_append_left _ _)) _).mpr
      ⟨other, otherEarly, shows, rfl⟩
  have same := agree _ _ perm (permuted.trans perm) firstAgain firstLate
  rw [same, ← whole] at backward
  exact Forest.pair_sublist_asymm nodup (forward.map RunSpan.runId) (backward.map RunSpan.runId)

end Orders

/-! ## Inserts that return

The search for a place in the index walks over the subtrees of the siblings before a run. Runs
whose parents come in a circle are below none that is read, but such a walk does not end. -/

/-- The walks of the search end. Below a parent without a span there are none. -/
def SearchEnds (state : DocState) (node : RunNode) : Prop :=
  let siblings := state.childIds node.parentId
  node.parentId = rootId ∨
    (state.index.spans.findIdx? fun span => span.runId == node.parentId).isSome = true →
      ∀ sibling ∈ siblings.take (siblings.findIdx fun id => id == node.id),
        Forest.Finishes state.childIds [sibling]

def InsertReturns (state : DocState) (node : RunNode) : Prop :=
  (state.nodes.get? node.id).isSome = true ∨ SearchEnds (state.withRun node) node

/-- Some inserts come to their ends, one after the other. -/
def InsertsReturn (nodes : List RunNode) : Prop :=
  ∀ before node after, nodes = before ++ node :: after → InsertReturns (built before) node

section Returning

variable {nodes before after : List RunNode} {node : RunNode}

theorem Holds.acyclic_iff {state : DocState} (holds : Holds state nodes) (separate : Separate nodes)
    (member : node ∈ nodes) : Forest.Acyclic state.childIds node.id ↔
      ∀ parent ∈ nodes, parent.id = node.parentId → ¬ Under nodes node parent := by
  constructor
  · intro acyclic parent inNodes named under
    rcases (holds.under_iff separate member inNodes).mpr under with ⟨steps, below⟩
    exact acyclic steps ⟨parent.id, below, (holds.children _ _).mpr ⟨node, member, rfl, named.symm⟩⟩
  · rintro outside steps ⟨parent, below, child⟩
    rcases (holds.children _ _).mp child with ⟨self, selfIn, same, listed⟩
    rw [separate.eq_of_id selfIn member same] at listed
    cases steps with
    | zero =>
        cases below
        exact outside node member listed.symm (.self node)
    | succ steps =>
        have within := below
        rcases below with ⟨_, _, parentChild⟩
        rcases (holds.children _ _).mp parentChild with ⟨parentRun, inNodes, rfl, _⟩
        exact outside parentRun inNodes listed.symm
          ((holds.under_iff separate member inNodes).mp ⟨_, within⟩)

theorem mem_before_iff (separate : Separate (before ++ [node])) {state : DocState}
    (holds : Holds state (before ++ [node])) (sibling : String) :
    sibling ∈ (state.childIds node.parentId).take
        ((state.childIds node.parentId).findIdx fun id => id == node.id) ↔
      ∃ left ∈ before, left.id = sibling ∧ left.parentId = node.parentId ∧ left.Leads node := by
  have last : node ∈ before ++ [node] := List.mem_append_right _ List.mem_cons_self
  have child : node.id ∈ state.childIds node.parentId :=
    (holds.children _ _).mpr ⟨node, last, rfl, rfl⟩
  have nodup := holds.listed.parents.nodup node.parentId
  have member := fun id => holds.children node.parentId id
  rcases List.append_of_mem child with ⟨ahead, behind, whole⟩
  rw [whole] at nodup member ⊢
  have parts := List.nodup_append.mp nodup
  have absent : node.id ∉ ahead := fun inside => parts.2.2 _ inside _ List.mem_cons_self rfl
  rw [take_findIdx_middle absent]
  constructor
  · intro inside
    rcases (member sibling).mp (List.mem_append_left _ inside) with ⟨left, leftIn, rfl, listed⟩
    have pair : [left.id, node.id].Sublist (state.childIds node.parentId) := by
      rw [whole]
      exact Forest.pair_sublist_append.mpr (.inr (.inl ⟨inside, List.mem_cons_self⟩))
    have leads := holds.leads leftIn last pair
    rcases List.mem_append.mp leftIn with early | self
    · exact ⟨left, early, rfl, listed, leads⟩
    · rw [List.mem_singleton.mp self] at inside
      exact absurd inside absent
  · rintro ⟨left, early, rfl, listed, leads⟩
    have leftIn : left ∈ before ++ [node] := List.mem_append_left _ early
    rcases List.mem_append.mp ((member left.id).mpr ⟨left, leftIn, rfl, listed⟩) with inside | later
    · exact inside
    · rcases List.mem_cons.mp later with same | inside
      · rw [separate.eq_of_id leftIn last same] at leads
        exact absurd leads leads.asymm
      · have pair : [node.id, left.id].Sublist (state.childIds node.parentId) := by
          rw [whole]
          exact (List.Sublist.cons_cons _ (List.singleton_sublist.mpr inside)).trans
            (List.sublist_append_right _ _)
        exact absurd (holds.leads last leftIn pair) leads.asymm

theorem insertReturns_iff (separate : Separate (before ++ [node])) :
    InsertReturns (built before) node ↔ ∀ left ∈ before, left.parentId = node.parentId →
      left.Leads node → ∀ parent ∈ before, parent.id = left.parentId → parent.deleted = false →
        ¬ Under (before ++ [node]) left parent := by
  have earlier := separate.sublist (List.sublist_append_left _ _)
  have fresh := fresh_of_next separate
  have holds := holds_built separate
  have table : ∀ id, ((built before).withRun node).childIds id =
      (built (before ++ [node])).childIds id := by
    intro id
    rw [built_append, applyInsertRun, if_neg fresh]
    rfl
  have walk : ∀ left ∈ before ++ [node],
      (Forest.Finishes (built (before ++ [node])).childIds [left.id] ↔
        ∀ parent ∈ before ++ [node], parent.id = left.parentId →
          ¬ Under (before ++ [node]) left parent) := by
    intro left leftIn
    rw [← holds.acyclic_iff separate leftIn]
    have stored : left.id ∈ (built (before ++ [node])).nodes.keys :=
      (OrderedMap.mem_keys_iff _ _).mpr ⟨left, holds.get?_of_mem leftIn⟩
    apply holds.listed.parents.finishes_iff stored
    intro id child listed
    rw [OrderedMap.mem_keys_iff]
    exact Option.isSome_iff_exists.mp (holds.listed.stored id child listed)
  have spans : ((built before).withRun node).index.spans = (built before).index.spans := rfl
  rw [InsertReturns, or_iff_right fresh, SearchEnds, spans, funext table]
  constructor
  · intro ends left early siblings leads parent parentIn named shows
    have seen : parent.span ∈ (built before).index.spans :=
      (mem_spans_built earlier _).mpr ⟨parent, parentIn, shows, rfl⟩
    have searched := ends (.inr (by
      rw [List.findIdx?_isSome, List.any_eq_true]
      exact ⟨_, seen, beq_iff_eq.mpr (named.trans siblings)⟩)) left.id
      ((mem_before_iff separate holds _).mpr ⟨left, early, rfl, siblings, leads⟩)
    exact (walk left (List.mem_append_left _ early)).mp searched parent
      (List.mem_append_left _ parentIn) named
  · intro unlooped searched sibling inside
    rcases (mem_before_iff separate holds _).mp inside with ⟨left, early, rfl, siblings, leads⟩
    rw [walk left (List.mem_append_left _ early)]
    intro parent parentIn named
    rcases searched with root | found
    · exact absurd (named.trans (siblings.trans root)) (separate.notRoot parent parentIn)
    · rw [List.findIdx?_isSome, List.any_eq_true] at found
      rcases found with ⟨span, listed, owner⟩
      rcases (mem_spans_built earlier span).mp listed with ⟨other, otherIn, shows, rfl⟩
      have same := separate.eq_of_id parentIn (List.mem_append_left _ otherIn)
        (named.trans (siblings.trans (beq_iff_eq.mp owner).symm))
      subst same
      exact unlooped left early siblings leads parent otherIn named shows

end Returning

/-! ## Inserts of the root

An insert with the id of the root changes nothing. -/

section Root

variable {nodes : List RunNode}

def besidesRoot (nodes : List RunNode) : List RunNode := nodes.filter fun node => node.id != rootId

theorem stored_root (nodes : List RunNode) : ((built nodes).nodes.get? rootId).isSome = true := by
  induction nodes using List.reverseRecOn with
  | nil => rfl
  | append_singleton before node induction =>
      rw [built_append]
      exact stored_applyInsertRun induction node

theorem built_besidesRoot (nodes : List RunNode) : built (besidesRoot nodes) = built nodes := by
  induction nodes using List.reverseRecOn with
  | nil => rfl
  | append_singleton before node induction =>
      rw [besidesRoot] at induction ⊢
      rw [List.filter_append, built_append]
      by_cases root : node.id = rootId
      · have stored := stored_root before
        rw [← root] at stored
        rw [applyInsertRun, if_pos stored, List.filter_cons_of_neg (by simp [root]),
          List.filter_nil, List.append_nil]
        exact induction
      · rw [List.filter_cons_of_pos (by simp [root]), List.filter_nil, built_append, induction]

theorem separate_besidesRoot (ids : (nodes.map RunNode.id).Nodup)
    (stamps : (nodes.map RunNode.stamp).Nodup) : Separate (besidesRoot nodes) where
  ids := ids.sublist (List.filter_sublist.map _)
  stamps := stamps.sublist (List.filter_sublist.map _)
  notRoot := fun node member => by
    rw [besidesRoot, List.mem_filter, bne_iff_ne] at member
    exact member.2

theorem parentsFirst_besidesRoot {known : List String} (first : ParentsFirst known nodes)
    (root : rootId ∈ known) : ParentsFirst known (besidesRoot nodes) := by
  induction nodes generalizing known with
  | nil => trivial
  | cons node rest induction =>
      have later := induction first.2 (List.mem_cons_of_mem _ root)
      rw [DocState.besidesRoot] at later ⊢
      by_cases same : node.id = rootId
      · rw [List.filter_cons_of_neg (by simp [same])]
        apply later.mono
        intro id member
        rcases List.mem_cons.mp member with equal | old
        · rw [equal, same]
          exact root
        · exact old
      · rw [List.filter_cons_of_pos (by simp [same])]
        exact ⟨first.1, later⟩

theorem parentsFirst_of_known {known : List String}
    (parents : ∀ node ∈ nodes, node.parentId ∈ known) : ParentsFirst known nodes := by
  induction nodes generalizing known with
  | nil => trivial
  | cons node rest induction =>
      refine ⟨parents node List.mem_cons_self, induction fun other member => ?_⟩
      exact List.mem_cons_of_mem _ (parents other (List.mem_cons_of_mem _ member))

theorem exists_order_of_besidesRoot {order others : List RunNode} (perm : order.Perm nodes)
    (first : ParentsFirst [rootId] order) (permOthers : others.Perm (besidesRoot nodes))
    (firstOthers : ParentsFirst [rootId] others) :
    ∃ all, all.Perm nodes ∧ ParentsFirst [rootId] all ∧ built all = built others := by
  have kept : besidesRoot others = others := by
    rw [besidesRoot, List.filter_eq_self]
    intro node member
    exact (List.mem_filter.mp (permOthers.subset member)).2
  refine ⟨others ++ nodes.filter fun node => !(node.id != rootId), ?_, ?_, ?_⟩
  · exact (permOthers.append_right _).trans (List.filter_append_perm _ _)
  · refine parentsFirst_append.mpr ⟨firstOthers, parentsFirst_of_known fun node member => ?_⟩
    have inOrder := perm.mem_iff.mpr (List.mem_filter.mp member).1
    rcases first.parent inOrder with root | ⟨parent, parentIn, named⟩
    · exact List.mem_append_right _ root
    · by_cases root : parent.id = rootId
      · rw [← named, root]
        exact List.mem_append_right _ List.mem_cons_self
      · have inOthers : parent ∈ others := by
          rw [permOthers.mem_iff, besidesRoot, List.mem_filter, bne_iff_ne]
          exact ⟨perm.subset parentIn, root⟩
        rw [← named]
        exact List.mem_append_left _ (List.mem_map_of_mem inOthers)
  · rw [← built_besidesRoot, besidesRoot, List.filter_append, List.filter_filter]
    rw [besidesRoot] at kept
    rw [kept, List.filter_eq_nil_iff.mpr, List.append_nil]
    intro node _
    simp

theorem besidesRoot_split {before after : List RunNode} {node : RunNode}
    (other : node.id ≠ rootId) :
    besidesRoot (before ++ node :: after) = besidesRoot before ++ node :: besidesRoot after := by
  rw [besidesRoot, List.filter_append, List.filter_cons_of_pos (by simp [other])]
  rfl

theorem insertsReturn_iff (separate : Separate (besidesRoot nodes)) :
    (∀ order : List RunNode, order.Perm nodes → InsertsReturn order) ↔
      LoopsLast (besidesRoot nodes) := by
  constructor
  · intro returns left leftIn right rightIn siblings leads parent parentIn named shows under
    have notLeft : left ≠ right := by
      rintro rfl
      exact leads.asymm leads
    have notParent : parent ≠ right := by
      rintro rfl
      exact notLeft (under.eq_of_self separate leftIn (siblings.symm.trans named.symm))
    rcases List.append_of_mem rightIn with ⟨before, after, whole⟩
    -- The run comes last, when all the others are there.
    have perm : (before ++ after ++ [right]).Perm (besidesRoot nodes) := by
      rw [whole, List.append_assoc]
      exact (List.perm_append_comm).append_left before
    have inOthers : ∀ run ∈ besidesRoot nodes, run ≠ right → run ∈ before ++ after := by
      intro run member other
      rcases List.mem_append.mp (perm.mem_iff.mpr member) with inside | self
      · exact inside
      · exact absurd (List.mem_singleton.mp self) other
    have all : (before ++ after ++ right :: nodes.filter fun node => !(node.id != rootId)).Perm
        nodes := by
      rw [List.append_cons]
      exact (perm.append_right _).trans (List.filter_append_perm _ _)
    have ends := returns _ all (before ++ after) right _ rfl
    rw [insertReturns_iff (separate.perm perm)] at ends
    exact ends left (inOthers left leftIn notLeft) siblings leads parent
      (inOthers parent parentIn notParent) named shows
      (under.mono fun run member => perm.mem_iff.mpr member)
  · intro loops order perm before node after whole
    by_cases root : node.id = rootId
    · exact .inl (root ▸ stored_root before)
    · have permOthers : (besidesRoot order).Perm (besidesRoot nodes) := perm.filter _
      rw [whole, besidesRoot_split root, List.append_cons] at permOthers
      have inNodes : ∀ run ∈ besidesRoot before ++ [node], run ∈ besidesRoot nodes :=
        fun run member => permOthers.subset (List.mem_append_left _ member)
      have early : ∀ run ∈ besidesRoot before, run ∈ besidesRoot nodes := fun run member =>
        inNodes run (List.mem_append_left _ member)
      have here := (separate.perm permOthers).sublist (List.sublist_append_left _ _)
      rw [← built_besidesRoot, insertReturns_iff here]
      intro left leftIn siblings leads parent parentIn named shows under
      exact loops left (early left leftIn) node
        (inNodes node (List.mem_append_right _ List.mem_cons_self)) siblings leads parent
        (early parent parentIn) named shows (under.mono inNodes)

theorem tombstonesLast_of_perm {others : List RunNode} (last : TombstonesLast nodes)
    (perm : others.Perm nodes) : TombstonesLast others := by
  have inNodes : ∀ node ∈ others, node ∈ nodes := fun _ member => perm.subset member
  intro node member live dead left leftIn right rightIn siblings leads leftUnder other otherIn
    shows rightUnder
  rcases dead with ⟨parent, parentIn, named⟩
  exact last node (inNodes node member) live ⟨parent, inNodes parent parentIn, named⟩ left
    (inNodes left leftIn) right (inNodes right rightIn) siblings leads (leftUnder.mono inNodes)
    other (inNodes other otherIn) shows (rightUnder.mono inNodes)

end Root

/-! ## All orders -/

section Agreement

variable {nodes : List RunNode}

/-- Every order of some inserts comes to its end and makes the same text, and every order with
parents before their children the same tree and the same index. -/
def OrdersAgree (nodes : List RunNode) : Prop :=
  (∀ order : List RunNode, order.Perm nodes →
    InsertsReturn order ∧ (built order).reconstruct = (built nodes).reconstruct) ∧
  ∀ left right : List RunNode, left.Perm nodes → right.Perm nodes → ParentsFirst [rootId] left →
    ParentsFirst [rootId] right →
      SameTree (built left) (built right) ∧ (built right).index = (built left).index

theorem same_tree_of_perm (ids : (nodes.map RunNode.id).Nodup)
    (stamps : (nodes.map RunNode.stamp).Nodup) {left right : List RunNode}
    (leftPerm : left.Perm nodes) (rightPerm : right.Perm nodes) :
    SameTree (built left) (built right) := by
  have separate := separate_besidesRoot ids stamps
  have leftOthers : (besidesRoot left).Perm (besidesRoot nodes) := leftPerm.filter _
  have rightOthers : (besidesRoot right).Perm (besidesRoot nodes) := rightPerm.filter _
  rw [← built_besidesRoot left, ← built_besidesRoot right]
  exact (holds_built (separate.perm leftOthers)).same_tree (holds_built (separate.perm rightOthers))
    (rightOthers.trans leftOthers.symm)

/-- The orders of inserts agree exactly if no search goes round a circle of parents and, where
there is an order with parents first, no visible run below a tombstone has a visible run behind
it that siblings part from it. -/
theorem insert_orders_agree_iff (ids : (nodes.map RunNode.id).Nodup)
    (stamps : (nodes.map RunNode.stamp).Nodup) :
    OrdersAgree nodes ↔ LoopsLast (besidesRoot nodes) ∧
      ((∃ order : List RunNode, order.Perm nodes ∧ ParentsFirst [rootId] order) →
        TombstonesLast (besidesRoot nodes)) := by
  have separate := separate_besidesRoot ids stamps
  constructor
  · rintro ⟨texts, agree⟩
    refine ⟨(insertsReturn_iff separate).mp fun order perm => (texts order perm).1, ?_⟩
    rintro ⟨order, perm, first⟩
    have permOthers : (besidesRoot order).Perm (besidesRoot nodes) := perm.filter _
    have firstOthers := parentsFirst_besidesRoot first List.mem_cons_self
    refine tombstonesLast_of_perm ?_ permOthers.symm
    apply tombstonesLast_of_agree (separate.perm permOthers) firstOthers
    intro left right leftPerm rightPerm leftFirst rightFirst
    rcases exists_order_of_besidesRoot perm first (leftPerm.trans permOthers) leftFirst with
      ⟨leftAll, leftAllPerm, leftAllFirst, leftSame⟩
    rcases exists_order_of_besidesRoot perm first (rightPerm.trans permOthers) rightFirst with
      ⟨rightAll, rightAllPerm, rightAllFirst, rightSame⟩
    rw [← leftSame, ← rightSame]
    exact (agree leftAll rightAll leftAllPerm rightAllPerm leftAllFirst rightAllFirst).2
  · rintro ⟨loops, last⟩
    refine ⟨fun order perm => ⟨(insertsReturn_iff separate).mpr loops order perm, ?_⟩, ?_⟩
    · exact (same_tree_of_perm ids stamps (List.Perm.refl _) perm).reconstruct
    intro left right leftPerm rightPerm leftFirst rightFirst
    have same := same_tree_of_perm ids stamps leftPerm rightPerm
    have tombstones := last ⟨left, leftPerm, leftFirst⟩
    have sound : ∀ order : List RunNode, order.Perm nodes → ParentsFirst [rootId] order →
        Sound (built order) := by
      intro order perm first
      have permOthers : (besidesRoot order).Perm (besidesRoot nodes) := perm.filter _
      have here := tombstonesLast_of_perm tombstones permOthers
      rw [← built_besidesRoot]
      have firstOthers := parentsFirst_besidesRoot first List.mem_cons_self
      apply sound_built (separate.perm permOthers) firstOthers
      intro before node after whole live dead left leftIn right rightIn siblings leads leftUnder
        other early
      have inWhole : ∀ run ∈ before ++ [node], run ∈ besidesRoot order := by
        intro run member
        rw [whole, List.append_cons]
        exact List.mem_append_left _ member
      exact here node (inWhole node (List.mem_append_right _ List.mem_cons_self)) live dead left
        leftIn right rightIn siblings leads leftUnder other
        (inWhole other (List.mem_append_left _ early))
    exact ⟨same, same.index (sound left leftPerm leftFirst) (sound right rightPerm rightFirst)⟩

def threeRuns : List RunNode :=
  [run "1:usr_1" 1 [97] rootId, run "2:usr_1" 2 [98] rootId, run "3:usr_1" 3 [99] "1:usr_1"]

theorem insert_orders_agree_threeRuns : OrdersAgree threeRuns := by
  refine (@insert_orders_agree_iff threeRuns (by decide) (by decide)).mpr ⟨?_, ?_⟩
  · -- The runs with siblings lie below the root.
    intro left leftIn right rightIn siblings leads parent parentIn named
    have below : ∀ left ∈ besidesRoot threeRuns, ∀ right ∈ besidesRoot threeRuns,
        ∀ parent ∈ besidesRoot threeRuns, left.parentId = right.parentId →
          parent.id = left.parentId → left = right := by decide
    rw [below left leftIn right rightIn parent parentIn siblings named] at leads
    exact absurd leads leads.asymm
  · rintro _ node member live ⟨parent, parentIn, _, dead⟩
    have visible : ∀ run ∈ threeRuns, run.deleted = false := by decide
    rw [visible parent (List.mem_filter.mp parentIn).1] at dead
    cases dead

def tombstoneBefore : List RunNode :=
  [{ run "2:usr_1" 2 [97] rootId with deleted := true }, run "3:usr_1" 3 [98] "2:usr_1",
    run "1:usr_1" 1 [99] rootId]

/-- The run below the tombstone has its span behind the other's if it comes later. -/
theorem tombstoneBefore_disagrees : (tombstoneBefore.map RunNode.id).Nodup ∧
    (tombstoneBefore.map RunNode.stamp).Nodup ∧ ¬ OrdersAgree tombstoneBefore := by
  refine ⟨by decide, by decide, fun agree => ?_⟩
  have parted := (agree.2 tombstoneBefore
    [{ run "2:usr_1" 2 [97] rootId with deleted := true }, run "1:usr_1" 1 [99] rootId,
      run "3:usr_1" 3 [98] "2:usr_1"] (List.Perm.refl _)
    (List.Perm.cons _ (List.Perm.swap _ _ _))
    ⟨by decide, by decide, by decide, trivial⟩ ⟨by decide, by decide, by decide, trivial⟩).2
  have spans := congrArg PositionIndex.spans parted
  revert spans
  decide

end Agreement

end DocState

end Ebb.Text
