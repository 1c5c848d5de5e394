import Ebb.Text.SpannedRuns

namespace Ebb.Text

/-! The position of a new run, as `findInsertPosition` works it out before the insert: by a walk
of its own over the siblings, and from the spans of the index. It falls back to the start of the
document where the index does not lead to the parent. -/

namespace PositionIndex

def runOffsetToPositionFrom (runId : String) (offset : Nat) : List RunSpan → Nat → Option Nat
  | [], _ => none
  | span :: rest, cumulative =>
      if span.runId = runId then
        if span.length ≤ offset then none else some (cumulative + offset)
      else runOffsetToPositionFrom runId offset rest (cumulative + span.length)

def runOffsetToPosition (index : PositionIndex) (runId : String) (offset : Nat) : Option Nat :=
  runOffsetToPositionFrom runId offset index.spans 0

theorem runOffsetToPositionFrom_append {runId : String} {before after : List RunSpan}
    {span : RunSpan} (offset cumulative : Nat) (apart : ∀ other ∈ before, other.runId ≠ runId)
    (here : span.runId = runId) :
    runOffsetToPositionFrom runId offset (before ++ span :: after) cumulative =
      if span.length ≤ offset then none
      else some (cumulative + (before.map RunSpan.length).sum + offset) := by
  induction before generalizing cumulative with
  | nil => simp [runOffsetToPositionFrom, here]
  | cons other rest induction =>
      rw [List.cons_append, runOffsetToPositionFrom, if_neg (apart other List.mem_cons_self),
        induction (cumulative + other.length) fun span member =>
          apart span (List.mem_cons_of_mem _ member)]
      simp [Nat.add_assoc]

theorem runOffsetToPositionFrom_of_apart {runId : String} {spans : List RunSpan}
    (offset cumulative : Nat) (apart : ∀ other ∈ spans, other.runId ≠ runId) :
    runOffsetToPositionFrom runId offset spans cumulative = none := by
  induction spans generalizing cumulative with
  | nil => rfl
  | cons other rest induction =>
      rw [runOffsetToPositionFrom, if_neg (apart other List.mem_cons_self)]
      exact induction _ fun span member => apart span (List.mem_cons_of_mem _ member)

end PositionIndex

namespace DocState

def subtreeVisibleLength (state : DocState) (id : String) : Nat :=
  ((state.index.spans.filter fun span =>
    decide (span.runId ∈ state.collectSubtreeIds id)).map RunSpan.length).sum

def findInsertPosition (state : DocState) (parentId : String) (newNode : RunNode) : Nat :=
  let siblings := state.childIds parentId
  let preceding := siblings.take (state.siblingIndex newNode siblings)
  let below := (preceding.map state.subtreeVisibleLength).sum
  if parentId = rootId then below
  else
    match state.index.runOffsetToPosition parentId 0 with
    -- A tombstone has no span, and the span of an empty run no offset 0.
    | none => 0
    | some parentPosition =>
        let parentSpan := state.index.spans.find? fun span => span.runId == parentId
        parentPosition + (parentSpan.map RunSpan.length).getD 0 + below

/-- What is read in front of a new run: the text up to its parent, the parent's, and that of the
siblings that come first, with all below them. -/
def textAhead (state : DocState) (node : RunNode) : List UInt16 :=
  let siblings := state.childIds node.parentId
  let preceding := siblings.take (state.siblingIndex node siblings)
  ((state.order.takeWhile fun id => id != node.parentId) ++
    node.parentId :: preceding.flatMap state.collectSubtreeIds).flatMap state.textOf

/-- The spans in front of a run's are as long as the text in front of the run. -/
def InPlace (state : DocState) (runId : String) : Prop :=
  ∃ before span after, state.index.spans = before ++ span :: after ∧ span.runId = runId ∧
    StartsAt state runId (state.textOf runId) (before.map RunSpan.length).sum

/-- The index leads to the place below a parent in the document: the parent is the root, or has
text and its span where the text is, or nothing is read in front of the new run. -/
def LeadsBelow (state : DocState) (node : RunNode) : Prop :=
  node.parentId ∈ state.order ∧
    (node.parentId = rootId ∨
      (state.textOf node.parentId ≠ [] ∧ InPlace state node.parentId) ∨
      (state.textOf node.parentId = [] ∧ state.textAhead node = []))

section Ahead

variable {state : DocState} {tree : Forest String} {node : RunNode}

theorem text_pieceOf (nodes : OrderedMap String RunNode) (ids : List String) :
    PieceTable.text (ids.filterMap (pieceOf nodes)) =
      ids.flatMap fun id => ((shown nodes id).map RunNode.text).getD [] := by
  induction ids with
  | nil => rfl
  | cons id rest induction =>
      rw [List.filterMap_cons, List.flatMap_cons, ← induction, pieceOf]
      cases shown nodes id with
      | none => rfl
      | some node => rfl

theorem findIdx_congr {items : List String} {first second : String → Bool}
    (same : ∀ item ∈ items, second item = first item) :
    items.findIdx second = items.findIdx first := by
  induction items with
  | nil => rfl
  | cons item rest induction =>
      rw [List.findIdx_cons, List.findIdx_cons, same item List.mem_cons_self,
        induction fun other member => same other (List.mem_cons_of_mem _ member)]

theorem takeWhile_key {α : Type} (key : α → String) {before after : List α} {item : α}
    (nodup : ((before ++ item :: after).map key).Nodup) :
    ((before ++ item :: after).takeWhile fun other => key other != key item) = before := by
  rw [List.map_append, List.map_cons, List.nodup_append] at nodup
  rw [List.takeWhile_append_of_pos fun other member => bne_iff_ne.mpr
      (nodup.2.2 (key other) (List.mem_map_of_mem member) (key item) List.mem_cons_self),
    List.takeWhile_cons_of_neg (by simp), List.append_nil]

theorem Listed.siblingIndex_eq (listed : Listed state) (fresh : state.nodes.get? node.id = none) :
    state.siblingIndex node (state.childIds node.parentId) = placeOf state node := by
  apply Eq.symm
  apply findIdx_congr
  intro sibling member
  have apart : sibling ≠ node.id := by
    rintro rfl
    have stored := listed.stored _ _ member
    rw [fresh] at stored
    cases stored
  rw [OrderedMap.get?_set_of_ne _ apart]

theorem childIds_applyInsertRun (fresh : state.nodes.get? node.id = none) (id : String) :
    (state.applyInsertRun node).childIds id =
      if id = node.parentId then (state.childIds node.parentId).take (placeOf state node) ++
        node.id :: (state.childIds node.parentId).drop (placeOf state node)
      else state.childIds id := by
  rw [← childIds_withRun, applyInsertRun, fresh]
  rfl

theorem nodes_applyInsertRun (fresh : state.nodes.get? node.id = none) :
    (state.applyInsertRun node).nodes = state.nodes.set node.id node := by
  rw [applyInsertRun, fresh]
  rfl

theorem Rooted.order_insert (rooted : Rooted state tree) {next : Forest String}
    (grown : Rooted (state.applyInsertRun node) next)
    (fresh : state.nodes.get? node.id = none) (member : node.parentId ∈ tree.order) :
    ∃ (before : List String) (below : Forest String) (after later : List String),
      tree.order = before ++ node.parentId :: (below.order ++ after) ∧
      next.order = before ++ node.parentId ::
        (Forest.orderTake (placeOf state node) below ++ node.id :: later) ∧
      state.childIds node.parentId = below.roots ∧ below.Follows state.childIds := by
  have table := childIds_applyInsertRun fresh
  obtain ⟨before, below, lower, after, whole, grownOrder, roots, lowerRoots, follows, again⟩ :=
    Forest.order_around rooted.follows grown.follows rooted.nodup (by rw [grown.top, rooted.top])
      (fun id _ apart => (table id).trans (if_neg apart)) member
  rw [table, if_pos rfl, roots] at lowerRoots
  have apart : ∀ id ∈ below.order, id ≠ node.parentId := by
    have nodup := rooted.nodup
    rw [whole, List.nodup_append, List.nodup_cons] at nodup
    rintro id inside rfl
    exact nodup.2.1.1 (List.mem_append_left _ inside)
  have within : placeOf state node ≤ below.roots.length := by
    rw [← roots]
    exact List.findIdx_le_length
  obtain ⟨later, order⟩ := Forest.order_of_roots_take follows again
    (fun id inside => (table id).trans (if_neg (apart id inside))) within lowerRoots.symm
  refine ⟨before, below, after, later ++ after, whole, ?_, roots, follows⟩
  rw [grownOrder, order, List.append_assoc, List.cons_append]

theorem Rooted.preceding (rooted : Rooted state tree) {before after : List String}
    {below : Forest String} {parentId : String}
    (whole : tree.order = before ++ parentId :: (below.order ++ after))
    (follows : below.Follows state.childIds) (count : Nat) :
    (below.roots.take count).flatMap state.collectSubtreeIds = Forest.orderTake count below := by
  apply Forest.flatMap_collect_take follows
  have bound := rooted.length_le
  rw [whole] at bound
  simp only [List.length_append, List.length_cons] at bound
  omega

theorem Listed.textAhead_eq (listed : Listed state) (rooted : Rooted state tree)
    (fresh : state.nodes.get? node.id = none) {before after : List String} {below : Forest String}
    (whole : tree.order = before ++ node.parentId :: (below.order ++ after))
    (roots : state.childIds node.parentId = below.roots) (follows : below.Follows state.childIds) :
    state.textAhead node = (before ++ node.parentId ::
      Forest.orderTake (placeOf state node) below).flatMap state.textOf := by
  have upTo : (tree.order.takeWhile fun id => id != node.parentId) = before := by
    have nodup := rooted.nodup
    rw [whole] at nodup ⊢
    exact takeWhile_key id (by rwa [List.map_id])
  rw [textAhead, listed.siblingIndex_eq fresh, roots, rooted.preceding whole follows,
    rooted.order_eq, upTo]

theorem Listed.startsAt_textAhead (listed : Listed state)
    (fresh : state.nodes.get? node.id = none) (live : node.deleted = false)
    (member : node.parentId ∈ state.order) :
    StartsAt (state.applyInsertRun node) node.id node.text (state.textAhead node).length := by
  obtain ⟨tree, rooted, _⟩ := listed.exists_rooted
  obtain ⟨next, grown, _⟩ := (listed.insert node).exists_rooted
  rw [rooted.order_eq] at member
  obtain ⟨before, below, after, later, whole, order, roots, follows⟩ :=
    rooted.order_insert grown fresh member
  have notRoot : node.id ≠ rootId := by
    intro same
    have stored := listed.root
    rw [← same, fresh] at stored
    cases stored
  have written := nodes_applyInsertRun fresh
  have split : next.order = (before ++ node.parentId ::
      Forest.orderTake (placeOf state node) below) ++ node.id :: later := by
    rw [order, List.append_assoc, List.cons_append]
  have outside : node.id ∉ before ++ node.parentId ::
      Forest.orderTake (placeOf state node) below := by
    have nodup := grown.nodup
    rw [split, List.nodup_append] at nodup
    exact fun inside => nodup.2.2 _ inside _ List.mem_cons_self rfl
  have piece : pieceOf (state.applyInsertRun node).nodes node.id = some (node.id, node.text) := by
    rw [written]
    exact pieceOf_live rfl (OrderedMap.get?_set_self _ _ _) live notRoot
  refine ⟨(before ++ node.parentId :: Forest.orderTake (placeOf state node) below).filterMap
    (pieceOf (state.applyInsertRun node).nodes),
    later.filterMap (pieceOf (state.applyInsertRun node).nodes), ?_, ?_⟩
  · rw [grown.pieces_eq, split, List.filterMap_append, List.filterMap_cons, piece]
  · rw [text_pieceOf, listed.textAhead_eq rooted fresh whole roots follows]
    apply congrArg List.length
    apply List.flatMap_congr
    intro id inside
    have apart : id ≠ node.id := by
      rintro rfl
      exact outside inside
    rw [textOf, shown, shown, written, OrderedMap.get?_set_of_ne _ apart]

theorem Listed.not_startsAt (listed : Listed state) (fresh : state.nodes.get? node.id = none)
    (outside : node.parentId ∉ state.order) (text : List UInt16) (position : Nat) :
    ¬ StartsAt (state.applyInsertRun node) node.id text position := by
  obtain ⟨tree, rooted, reach⟩ := listed.exists_rooted
  obtain ⟨next, grown, grownReach⟩ := (listed.insert node).exists_rooted
  have table := childIds_applyInsertRun fresh
  rw [rooted.order_eq] at outside
  -- No path of the new table goes through the parent.
  have older : ∀ steps id, Forest.Below (state.applyInsertRun node).childIds steps rootId id →
      Forest.Below state.childIds steps rootId id := by
    intro steps
    induction steps with
    | zero => exact fun _ below => below
    | succ steps induction =>
        rintro id ⟨parent, above, child⟩
        have before := induction parent above
        have apart : parent ≠ node.parentId := by
          rintro rfl
          exact outside ((reach _).mpr ⟨steps, before⟩)
        rw [table, if_neg apart] at child
        exact ⟨parent, before, child⟩
  rintro ⟨before, after, whole, _⟩
  have inside : node.id ∈ next.order := by
    apply grown.mem_order_of_piece
    rw [whole]
    exact List.mem_append_right _ List.mem_cons_self
  obtain ⟨steps, below⟩ := (grownReach node.id).mp inside
  have stored := rooted.stored node.id ((reach node.id).mpr ⟨steps, older steps node.id below⟩)
  rw [fresh] at stored
  cases stored

end Ahead

/-! ## The position found -/

section Found

variable {state : DocState} {tree : Forest String} {node : RunNode} {id : String}

theorem length_textOf (state : DocState) (id : String) :
    (state.textOf id).length = (shownLength state.nodes id).getD 0 := by
  rw [textOf, shownLength, pieceOf]
  cases shown state.nodes id with
  | none => rfl
  | some node => rfl

theorem Spanned.sum_spans (spanned : Spanned state) {ids : List String} (nodup : ids.Nodup) :
    ((state.index.spans.filter fun span => decide (span.runId ∈ ids)).map RunSpan.length).sum =
      (ids.flatMap state.textOf).length := by
  have perm : (state.index.spans.filter fun span => decide (span.runId ∈ ids)).Perm
      (ids.filterMap fun id => (shownLength state.nodes id).map (RunSpan.mk id)) := by
    rw [List.perm_ext_iff_of_nodup (spanned.nodup.of_map.filter _)]
    · rintro ⟨id, length⟩
      simp only [List.mem_filter, decide_eq_true_eq, spanned.spans, List.mem_filterMap,
        Option.map_eq_some_iff, RunSpan.mk.injEq]
      constructor
      · rintro ⟨shows, member⟩
        exact ⟨id, member, length, shows, rfl, rfl⟩
      · rintro ⟨other, member, size, shows, rfl, rfl⟩
        exact ⟨shows, member⟩
    · apply nodup.filterMap
      intro first second span inFirst inSecond
      obtain ⟨_, _, rfl⟩ := Option.map_eq_some_iff.mp inFirst
      obtain ⟨_, _, same⟩ := Option.map_eq_some_iff.mp inSecond
      exact (congrArg RunSpan.runId same).symm
  rw [(perm.map _).sum_eq]
  clear perm nodup
  induction ids with
  | nil => rfl
  | cons id rest induction =>
      rw [List.flatMap_cons, List.length_append, length_textOf, List.filterMap_cons, ← induction]
      cases shownLength state.nodes id with
      | none => simp
      | some length => simp

theorem Spanned.sum_subtrees (spanned : Spanned state) {ids : List String}
    (nodup : (ids.flatMap state.collectSubtreeIds).Nodup) :
    (ids.map state.subtreeVisibleLength).sum =
      ((ids.flatMap state.collectSubtreeIds).flatMap state.textOf).length := by
  rw [List.flatMap_assoc, List.length_flatMap]
  apply congrArg List.sum
  apply List.map_congr_left
  intro id member
  exact spanned.sum_spans ((List.nodup_flatMap.mp nodup).1 id member)

theorem Spanned.before_eq (spanned : Spanned state) {before after : List RunSpan} {span : RunSpan}
    (whole : state.index.spans = before ++ span :: after) :
    (state.index.spans.takeWhile fun other => other.runId != span.runId) = before := by
  have nodup := spanned.nodup
  rw [whole] at nodup ⊢
  exact takeWhile_key RunSpan.runId nodup

theorem Spanned.findInsertPosition_of_text (spanned : Spanned state)
    (notRoot : node.parentId ≠ rootId) (text : state.textOf node.parentId ≠ []) :
    ∃ before span after, state.index.spans = before ++ span :: after ∧
      span.runId = node.parentId ∧ (∀ other ∈ before, other.runId ≠ node.parentId) ∧
      state.findInsertPosition node.parentId node =
        (before.map RunSpan.length).sum + (state.textOf node.parentId).length +
          (((state.childIds node.parentId).take (state.siblingIndex node
            (state.childIds node.parentId))).map state.subtreeVisibleLength).sum := by
  have positive : 0 < (state.textOf node.parentId).length := List.length_pos_iff.mpr text
  cases shows : shownLength state.nodes node.parentId with
  | none => simp [length_textOf, shows] at positive
  | some length =>
      have size : (state.textOf node.parentId).length = length := by
        rw [length_textOf, shows]
        rfl
      obtain ⟨before, after, whole, apart, _⟩ := spanned.around shows
      refine ⟨before, RunSpan.mk node.parentId length, after, whole, rfl, apart, ?_⟩
      have start : state.index.runOffsetToPosition node.parentId 0 =
          some (before.map RunSpan.length).sum := by
        rw [PositionIndex.runOffsetToPosition, whole,
          PositionIndex.runOffsetToPositionFrom_append 0 0 apart rfl, if_neg (by dsimp only; omega)]
        simp
      have found : state.index.spans.find? (fun span => span.runId == node.parentId) =
          some (RunSpan.mk node.parentId length) := by
        rw [whole, List.find?_append, List.find?_eq_none.mpr (by simpa using apart)]
        simp
      simp [findInsertPosition, if_neg notRoot, start, found, size]

theorem Spanned.findInsertPosition_of_bare (spanned : Spanned state)
    (notRoot : node.parentId ≠ rootId) (bare : state.textOf node.parentId = []) :
    state.findInsertPosition node.parentId node = 0 := by
  have nowhere : state.index.runOffsetToPosition node.parentId 0 = none := by
    cases shows : shownLength state.nodes node.parentId with
    | none =>
        exact PositionIndex.runOffsetToPositionFrom_of_apart 0 0 (spanned.runId_ne shows)
    | some length =>
        have size := length_textOf state node.parentId
        rw [bare, shows] at size
        obtain ⟨before, after, whole, apart, _⟩ := spanned.around shows
        rw [PositionIndex.runOffsetToPosition, whole,
          PositionIndex.runOffsetToPositionFrom_append 0 0 apart rfl, if_pos (show length ≤ 0 from size.symm.le)]
  simp [findInsertPosition, if_neg notRoot, nowhere]

theorem Rooted.startsAt_of_text (rooted : Rooted state tree) (text : state.textOf id ≠ [])
    {before after : List String}
    (whole : tree.order = before ++ id :: after) :
    StartsAt state id (state.textOf id) (before.flatMap state.textOf).length := by
  refine ⟨before.filterMap (pieceOf state.nodes), after.filterMap (pieceOf state.nodes), ?_, ?_⟩
  · have piece : pieceOf state.nodes id = some (id, state.textOf id) := by
      rw [textOf] at text ⊢
      rw [pieceOf]
      cases seen : shown state.nodes id with
      | none => simp [seen] at text
      | some node => rfl
    rw [rooted.pieces_eq, whole, List.filterMap_append, List.filterMap_cons, piece]
  · rw [text_pieceOf]
    rfl

theorem Listed.textOf_root (listed : Listed state) : state.textOf rootId = [] := by
  apply List.eq_nil_of_length_eq_zero
  rw [length_textOf, shownLength_root listed]
  rfl

theorem Rooted.nothing_before_root (rooted : Rooted state tree) {before after : List String}
    (whole : tree.order = before ++ rootId :: after) : before = [] := by
  have nodup := rooted.nodup
  have top := rooted.top
  cases tree with
  | nil => cases top
  | cons root below rest =>
      cases before with
      | nil => rfl
      | cons head others =>
          simp only [Forest.roots, List.cons.injEq] at top
          rw [whole] at nodup
          simp only [Forest.order, List.cons_append, List.cons.injEq] at whole
          rw [← whole.1, top.1, List.cons_append, List.nodup_cons] at nodup
          exact absurd (List.mem_append_right _ List.mem_cons_self) nodup.1

theorem Spanned.findInsertPosition_iff (spanned : Spanned state) (listed : Listed state)
    (fresh : state.nodes.get? node.id = none) (member : node.parentId ∈ state.order) :
    state.findInsertPosition node.parentId node = (state.textAhead node).length ↔
      LeadsBelow state node := by
  obtain ⟨tree, rooted, _⟩ := listed.exists_rooted
  obtain ⟨next, grown, _⟩ := (listed.insert node).exists_rooted
  have inTree := member
  rw [rooted.order_eq] at inTree
  obtain ⟨before, below, after, later, whole, order, roots, follows⟩ :=
    rooted.order_insert grown fresh inTree
  have ahead : (state.textAhead node).length = (before.flatMap state.textOf).length +
      (state.textOf node.parentId).length +
        ((Forest.orderTake (placeOf state node) below).flatMap state.textOf).length := by
    rw [listed.textAhead_eq rooted fresh whole roots follows]
    simp [Nat.add_assoc]
  have counted : (((state.childIds node.parentId).take (state.siblingIndex node
      (state.childIds node.parentId))).map state.subtreeVisibleLength).sum =
        ((Forest.orderTake (placeOf state node) below).flatMap state.textOf).length := by
    have preceding := rooted.preceding whole follows (placeOf state node)
    rw [listed.siblingIndex_eq fresh, roots, spanned.sum_subtrees, preceding]
    rw [preceding]
    have nodup := rooted.nodup
    rw [whole, List.nodup_append, List.nodup_cons, List.nodup_append,
      ← Forest.orderTake_append_orderDrop (placeOf state node) below] at nodup
    exact (List.nodup_append.mp nodup.2.1.2.1).1
  by_cases root : node.parentId = rootId
  · have start : before = [] := by
      rw [root] at whole
      exact rooted.nothing_before_root whole
    have bare : state.textOf node.parentId = [] := root ▸ listed.textOf_root
    have found : state.findInsertPosition node.parentId node = (state.textAhead node).length := by
      rw [ahead, ← counted, start, bare, findInsertPosition]
      simp [root]
    exact iff_of_true found ⟨member, .inl root⟩
  · by_cases text : state.textOf node.parentId = []
    · rw [spanned.findInsertPosition_of_bare root text]
      constructor
      · intro nothing
        exact ⟨member, .inr (.inr ⟨text, List.eq_nil_of_length_eq_zero nothing.symm⟩)⟩
      · rintro ⟨_, isRoot | ⟨shows, _⟩ | ⟨_, nothing⟩⟩
        · exact absurd isRoot root
        · exact absurd text shows
        · rw [nothing]
          rfl
    · obtain ⟨first, span, second, spans, here, apart, found⟩ :=
        spanned.findInsertPosition_of_text root text
      have starts := rooted.startsAt_of_text text whole
      rw [found, ahead, counted]
      have placed : InPlace state node.parentId ↔
          (first.map RunSpan.length).sum = (before.flatMap state.textOf).length := by
        constructor
        · rintro ⟨left, middle, right, again, owned, placed⟩
          have same : left = first := by
            rw [← spanned.before_eq again, owned, ← here, spanned.before_eq spans]
          rw [← same]
          exact (placed.unique rooted starts).2
        · intro same
          exact ⟨first, span, second, spans, here, same ▸ starts⟩
      simp only [LeadsBelow, member, root, text, placed, ne_eq, not_false_eq_true, true_and,
        false_or, false_and, or_false]
      omega

end Found

/-! ## Every reachable document -/

section Runs

variable {edits : List Edit} {state : DocState} {node : RunNode}

/-- The position found for a new run is the one where its text starts after the insert, exactly
where the index leads to the place below its parent. -/
theorem findInsertPosition_exact_iff (spares : machine.Meets SparesRoot createDocState edits)
    (reached : machine.run createDocState edits = some state)
    (fresh : state.nodes.get? node.id = none) (live : node.deleted = false) :
    StartsAt (state.docReducer (.insertRun node)) node.id node.text
        (state.findInsertPosition node.parentId node) ↔ LeadsBelow state node := by
  obtain ⟨listed, spanned⟩ := spanned_of_run spares reached
  by_cases member : node.parentId ∈ state.order
  · obtain ⟨next, grown, _⟩ := (listed.insert node).exists_rooted
    have starts := listed.startsAt_textAhead fresh live member
    rw [← spanned.findInsertPosition_iff listed fresh member]
    constructor
    · exact fun found => (found.unique grown starts).2
    · intro same
      rw [same]
      exact starts
  · exact iff_of_false (listed.not_startsAt fresh member node.text _) fun leads => member leads.1

end Runs

def deletedParent : List Edit :=
  [.reduce (.insertRun (run "3:usr_1" 3 [97] rootId)),
    .reduce (.insertRun (run "2:usr_1" 2 [98] rootId)), .reduce (.deleteRange "2:usr_1" 0 1)]

theorem findInsertPosition_twoRuns :
    StartsAt ((twoRuns.foldl edit createDocState).docReducer
      (.insertRun (run "3:usr_1" 3 [100] "1:usr_1"))) "3:usr_1" [100] 2 := by
  apply (@findInsertPosition_exact_iff twoRuns (twoRuns.foldl edit createDocState)
    (run "3:usr_1" 3 [100] "1:usr_1") ?_ rfl rfl rfl).mpr
  · exact ⟨by decide, .inr (.inl ⟨by decide, [⟨"2:usr_1:s:1", 1⟩], ⟨"1:usr_1", 1⟩, [], rfl, rfl,
      [("2:usr_1:s:1", [98])], [], rfl, rfl⟩)⟩
  · refine ⟨trivial, fun first stepped => ?_⟩
    cases stepped
    refine ⟨trivial, fun second stepped => ?_⟩
    cases stepped
    exact ⟨nofun, fun _ _ => trivial⟩

/-- Below a tombstone the position found is the start of the document, wherever the run goes. -/
theorem not_findInsertPosition_exact : ¬ ∀ (edits : List Edit) (state : DocState) (node : RunNode),
    machine.run createDocState edits = some state → state.nodes.get? node.id = none →
      node.deleted = false → (state.nodes.get? node.parentId).isSome = true →
        StartsAt (state.docReducer (.insertRun node)) node.id node.text
          (state.findInsertPosition node.parentId node) := by
  intro exact
  have found := exact deletedParent (deletedParent.foldl edit createDocState)
    (run "4:usr_1" 4 [99] "2:usr_1") rfl rfl rfl rfl
  have listed : Listed ((deletedParent.foldl edit createDocState).docReducer
      (.insertRun (run "4:usr_1" 4 [99] "2:usr_1"))) :=
    (@listed_of_run deletedParent _ rfl).insert _
  obtain ⟨tree, rooted, _⟩ := listed.exists_rooted
  have shows : StartsAt ((deletedParent.foldl edit createDocState).docReducer
      (.insertRun (run "4:usr_1" 4 [99] "2:usr_1"))) "4:usr_1" [99] 1 :=
    ⟨[("3:usr_1", [97])], [], rfl, rfl⟩
  have same := (found.unique rooted shows).2
  revert same
  decide

end DocState

end Ebb.Text
