import Ebb.Foundation.Splice
import Ebb.Text.PositionIndex

namespace Ebb.Text

/-! The order of all runs of a document, tombstones included. Updates insert into it and
never move a run, so the text before and after an update can be read along one order. -/

namespace DocState

def order (state : DocState) : List String := (state.dfs rootId).map RunNode.id

def textOf (state : DocState) (id : String) : List UInt16 :=
  ((shown state.nodes id).map RunNode.text).getD []

/-! ## Reading along the order -/

section Reading

variable {state : DocState} {tree : Forest String}

theorem Rooted.order_eq (rooted : Rooted state tree) : state.order = tree.order := by
  have visited : ∀ id ∈ tree.order, ((state.nodes.get? id).map RunNode.id) = some id := by
    intro id member
    rcases Option.isSome_iff_exists.mp (rooted.stored id member) with ⟨node, found⟩
    rw [found, Option.map_some, rooted.named id node found]
  rw [order, rooted.dfs, List.map_filterMap, List.filterMap_congr visited, List.filterMap_some]

section

variable (grown : Grown state tree)
include grown

theorem Grown.order_eq : state.order = tree.order :=
  grown.rooted.order_eq

theorem Grown.order_of_same_tree {other : DocState} (same : Grown other tree)
    : other.order = state.order := by
  rw [same.order_eq, grown.order_eq]

theorem Grown.order_nodup : state.order.Nodup := by
  rw [grown.order_eq]
  exact grown.nodup

theorem Grown.mem_order (id : String) : id ∈ state.order ↔ (state.nodes.get? id).isSome := by
  rw [grown.order_eq]
  exact grown.stored id

theorem Grown.reconstruct_eq : state.reconstruct = state.order.flatMap state.textOf := by
  rw [reconstruct, grown.visibleRuns, grown.order_eq]
  induction tree.order with
  | nil => rfl
  | cons id rest induction =>
      rw [List.filterMap_cons, List.flatMap_cons, textOf, ← induction]
      cases shown state.nodes id with
      | none => rfl
      | some node => rfl

end

theorem Lists.spans_eq (lists : Lists state tree) (grown : Grown state tree) :
    state.index.spans = spansOf state.nodes state.order := by
  rw [grown.order_eq]
  exact lists.spans

theorem textOf_of_absent {id : String} (absent : state.nodes.get? id = none) :
    state.textOf id = [] := by
  rw [textOf, shown, absent]
  rfl

theorem textOf_of_deleted {id : String} {node : RunNode} (found : state.nodes.get? id = some node)
    (deleted : node.deleted = true) : state.textOf id = [] := by
  rw [textOf, shown, found, Option.filter_some, RunNode.visible, deleted]
  rfl

theorem textOf_congr {other : DocState} {id : String}
    (same : other.nodes.get? id = state.nodes.get? id) : other.textOf id = state.textOf id := by
  rw [textOf, textOf, shown, shown, same]

theorem Grown.textOf_live (grown : Grown state tree) {id : String} {node : RunNode}
    (found : state.nodes.get? id = some node) (live : node.deleted = false) :
    state.textOf id = node.text := by
  rw [textOf, shown_of_live grown found live]
  by_cases same : id = rootId
  · rcases grown.root with ⟨root, rootFound, empty, _⟩
    rw [← same, found] at rootFound
    cases rootFound
    rw [if_pos same, empty]
    rfl
  · rw [if_neg same]
    rfl

end Reading

/-! ## Updates and the order -/

section Ordered

variable {state : DocState} {tree : Forest String}

theorem Grown.order_insert (grown : Grown state tree) {node : RunNode}
    (parent : (state.nodes.get? node.id).isSome = true ∨
      (state.nodes.get? node.parentId).isSome = true) :
    state.order.Sublist (state.applyInsertRun node).order := by
  rw [applyInsertRun]
  split
  · exact List.Sublist.refl _
  · next fresh =>
      have parent := parent.resolve_left fresh
      have next := (grown.withRun fresh parent).reindex
      rcases Forest.order_insertUnder_middle node.id (placeOf state node) grown.follows grown.nodup
        ((grown.stored _).mpr parent) with ⟨before, after, whole, order⟩
      rw [(next _).order_eq, grown.order_eq, whole, order]
      exact (List.Sublist.refl before).append (List.sublist_cons_self _ _)

theorem Sound.order_withPlaceholder (sound : Sound state) (node : RunNode) :
    state.order.Sublist (state.withPlaceholder node).order := by
  rw [DocState.withPlaceholder]
  split
  · rcases sound with ⟨tree, grown, _⟩
    apply grown.order_insert
    right
    rcases grown.root with ⟨root, rootFound, _⟩
    dsimp only
    rw [rootFound]
    rfl
  · exact List.Sublist.refl _

theorem Sound.order_fieldUpdate (sound : Sound state) {runId : String} {field : Option RunNode}
    (meets : FieldMeets state runId field) :
    state.order.Sublist (state.applyRunFieldUpdate runId field).1.order := by
  rcases applyRunFieldUpdate_cases state runId field with
    kept | ⟨node, found, live, deletes⟩ | ⟨newNode, root, replaces⟩ |
      ⟨newNode, base, start, place, inserts⟩
  · rw [kept]
  · rw [deletes]
    split
    · exact List.Sublist.refl _
    · next text =>
        rcases sound with ⟨tree, grown, lists⟩
        have other : runId ≠ rootId := by
          rintro rfl
          rcases grown.root with ⟨root, rootFound, empty, _⟩
          rw [found] at rootFound
          cases rootFound
          exact text empty
        rw [grown.order_of_same_tree (tombstoned grown lists other).1]
  · rw [replaces]
    rcases sound with ⟨tree, grown, lists⟩
    rw [grown.order_of_same_tree (replaced grown lists (root meets)).1]
  · rw [inserts]
    have grownBase : Sound base ∧ state.order.Sublist base.order := by
      rcases start with rfl | rfl
      · exact ⟨sound, List.Sublist.refl _⟩
      · exact ⟨sound.withPlaceholder newNode, sound.order_withPlaceholder newNode⟩
    rcases grownBase with ⟨⟨tree, grown, _⟩, first⟩
    exact first.trans (grown.order_insert ((place meets).imp id And.left))

end Ordered

/-! ## Updates and the other runs -/

section Others

variable {state : DocState} {id : String}

theorem textOf_tombstoneRun_of_ne {runId : String} (apart : id ≠ runId) :
    (state.tombstoneRun runId).textOf id = state.textOf id := by
  rw [tombstoneRun]
  split
  · rfl
  · split
    · rfl
    · exact textOf_congr (OrderedMap.get?_set_of_ne _ apart _)

theorem textOf_applySetRun_of_ne {runId : String} (apart : id ≠ runId) (newNode : RunNode) :
    (state.applySetRun runId newNode).textOf id = state.textOf id := by
  rw [applySetRun]
  split
  · rfl
  · split
    · rfl
    · exact textOf_congr (OrderedMap.get?_set_of_ne _ apart _)

theorem textOf_applyInsertRun_of_ne {node : RunNode} (apart : id ≠ node.id) :
    (state.applyInsertRun node).textOf id = state.textOf id := by
  rw [applyInsertRun]
  split
  · rfl
  · exact textOf_congr (OrderedMap.get?_set_of_ne _ apart _)

theorem textOf_withPlaceholder (node : RunNode) (id : String) :
    (state.withPlaceholder node).textOf id = state.textOf id := by
  rw [withPlaceholder]
  split
  · next missing =>
      by_cases same : id = node.parentId
      · subst same
        have absent : state.nodes.get? node.parentId = none := Option.isNone_iff_eq_none.mp missing.2
        rw [textOf_of_absent absent, applyInsertRun]
        rw [if_neg (by rw [absent]; exact Bool.false_ne_true)]
        exact textOf_of_deleted (OrderedMap.get?_set_self _ _ _) rfl
      · exact textOf_applyInsertRun_of_ne same
  · rfl

end Others

/-! ## Updates one after the other -/

theorem foldl_fieldUpdates (updates : List (String × Option RunNode))
    (result : DocState × List DocAction) :
    updates.foldl
        (fun result update =>
          let next := result.1.applyRunFieldUpdate update.1 update.2
          (next.1, result.2 ++ next.2))
        result =
      ((result.1.applyRunFieldUpdates updates).1,
        result.2 ++ (result.1.applyRunFieldUpdates updates).2) := by
  induction updates generalizing result with
  | nil =>
      change result = (result.1, result.2 ++ [])
      rw [List.append_nil]
  | cons update rest induction =>
      rw [applyRunFieldUpdates, List.foldl_cons, List.foldl_cons, induction, induction]
      dsimp only
      rw [List.nil_append, List.append_assoc]

theorem applyRunFieldUpdates_cons (state : DocState) (update : String × Option RunNode)
    (rest : List (String × Option RunNode)) :
    state.applyRunFieldUpdates (update :: rest) =
      let next := state.applyRunFieldUpdate update.1 update.2
      ((next.1.applyRunFieldUpdates rest).1, next.2 ++ (next.1.applyRunFieldUpdates rest).2) := by
  rw [applyRunFieldUpdates, List.foldl_cons, foldl_fieldUpdates]
  rfl

theorem applyRunFieldUpdates_append (state : DocState)
    (first second : List (String × Option RunNode)) :
    state.applyRunFieldUpdates (first ++ second) =
      let next := state.applyRunFieldUpdates first
      ((next.1.applyRunFieldUpdates second).1,
        next.2 ++ (next.1.applyRunFieldUpdates second).2) := by
  rw [applyRunFieldUpdates, List.foldl_append, foldl_fieldUpdates]
  rfl

theorem Sound.order_fieldUpdates {state : DocState} (sound : Sound state)
    {updates : List (String × Option RunNode)} (meets : FieldsMeet state updates) :
    state.order.Sublist (state.applyRunFieldUpdates updates).1.order := by
  induction updates generalizing state with
  | nil => exact List.Sublist.refl _
  | cons update rest induction =>
      rw [applyRunFieldUpdates_cons]
      exact (sound.order_fieldUpdate meets.1).trans
        (induction (sound.fieldUpdate meets.1) meets.2)

end DocState

end Ebb.Text
