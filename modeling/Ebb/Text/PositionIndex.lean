import Ebb.Foundation.Machine
import Ebb.Text.RunTree
import Mathlib.Algebra.GroupWithZero.Nat

namespace Ebb.Text

/-! The position index lists the visible runs in document order, as long as no run is
inserted before visible text below a tombstone and the root stays empty. -/

def RunNode.span (node : RunNode) : RunSpan where
  runId := node.id
  length := node.text.length

namespace DocState

/-! ## Looking up a position -/

theorem lookupFrom_spec {runs : List RunNode} {position : Nat} (cumulative spanIndex : Nat)
    (inside : position < (runs.flatMap RunNode.text).length) :
    ∃ lookup node, PositionIndex.lookupFrom (cumulative + position) (runs.map RunNode.span)
        cumulative spanIndex = some lookup ∧ node ∈ runs ∧ node.id = lookup.runId ∧
      lookup.offset < node.text.length ∧
      node.text[lookup.offset]? = (runs.flatMap RunNode.text)[position]? := by
  induction runs generalizing position cumulative spanIndex with
  | nil => cases inside
  | cons run rest induction =>
      rw [List.flatMap_cons, List.length_append] at inside
      rw [List.map_cons, PositionIndex.lookupFrom, List.flatMap_cons]
      split
      · next here =>
          have within : position < run.text.length := Nat.lt_of_add_lt_add_left here
          refine ⟨_, run, rfl, List.mem_cons_self, rfl, ?_, ?_⟩
          · dsimp only
            omega
          · dsimp only
            rw [Nat.add_sub_cancel_left, List.getElem?_append_left within]
      · next beyond =>
          have passed : run.text.length ≤ position :=
            Nat.le_of_add_le_add_left (Nat.le_of_not_lt beyond)
          have later := @induction (position - run.text.length)
            (cumulative + run.text.length) (spanIndex + 1) (by omega)
          rcases later with ⟨lookup, node, found, member, named, within, same⟩
          refine ⟨lookup, node, ?_, List.mem_cons_of_mem _ member, named, within, ?_⟩
          · rw [show cumulative + run.text.length + (position - run.text.length) =
              cumulative + position by omega] at found
            exact found
          · rw [same, List.getElem?_append_right passed]

/-! ## Trees and their indices -/

/-- The node under an id, if a reader sees its text. -/
def shown (nodes : OrderedMap String RunNode) (id : String) : Option RunNode :=
  (nodes.get? id).filter RunNode.visible

/-- The spans of the visible runs among some ids. -/
def spansOf (nodes : OrderedMap String RunNode) (ids : List String) : List RunSpan :=
  (ids.filterMap (shown nodes)).map RunNode.span

/-- What the maps of the state hold below the root is a tree. -/
structure Rooted (state : DocState) (tree : Forest String) : Prop where
  top : tree.roots = [rootId]
  follows : tree.Follows state.childIds
  nodup : tree.order.Nodup
  stored : ∀ id ∈ tree.order, (state.nodes.get? id).isSome = true
  named : ∀ id node, state.nodes.get? id = some node → node.id = id

/-- The maps of the state are a tree of all nodes below the root. -/
structure Grown (state : DocState) (tree : Forest String) : Prop where
  top : tree.roots = [rootId]
  follows : tree.Follows state.childIds
  nodup : tree.order.Nodup
  stored : ∀ id, id ∈ tree.order ↔ (state.nodes.get? id).isSome
  bare : ∀ id, id ∉ tree.order → state.childIds id = []
  named : ∀ id node, state.nodes.get? id = some node → node.id = id
  root : ∃ node, state.nodes.get? rootId = some node ∧ node.text = [] ∧ node.deleted = false

/-- The index lists the visible runs of the tree. -/
structure Lists (state : DocState) (tree : Forest String) : Prop where
  spans : state.index.spans = spansOf state.nodes tree.order
  total : state.index.totalLength = ((state.index.spans.map RunSpan.length).sum : Nat)

section Rooted

variable {state : DocState} {tree : Forest String}

theorem Rooted.length_le (rooted : Rooted state tree) :
    tree.order.length ≤ state.nodes.keys.length := by
  apply (List.subperm_of_subset rooted.nodup ?_).length_le
  intro id member
  rw [OrderedMap.mem_keys_iff]
  exact Option.isSome_iff_exists.mp (rooted.stored id member)

theorem Rooted.dfs (rooted : Rooted state tree) :
    state.dfs rootId = tree.order.filterMap state.nodes.get? := by
  have whole := Forest.flatMap_traverse rooted.follows rooted.stored
    (Nat.le_trans tree.height_le rooted.length_le)
  rw [rooted.top, List.flatMap_singleton] at whole
  exact whole

theorem Rooted.visibleRuns (rooted : Rooted state tree) :
    state.visibleRuns = tree.order.filterMap (shown state.nodes) := by
  rw [DocState.visibleRuns, rooted.dfs, List.filter_filterMap]
  rfl

theorem Rooted.rewrite (rooted : Rooted state tree) {nodes : OrderedMap String RunNode}
    (stored : ∀ id, (nodes.get? id).isSome = (state.nodes.get? id).isSome)
    (named : ∀ id node, nodes.get? id = some node → node.id = id) (index : PositionIndex) :
    Rooted { state with nodes, index } tree where
  top := rooted.top
  follows := rooted.follows
  nodup := rooted.nodup
  stored := fun id member => (stored id).trans (rooted.stored id member)
  named := named

theorem named_set {nodes : OrderedMap String RunNode} {key : String} {written : RunNode}
    (named : ∀ id node, nodes.get? id = some node → node.id = id) (here : written.id = key) :
    ∀ id node, (nodes.set key written).get? id = some node → node.id = id := by
  intro id node held
  rw [OrderedMap.get?_set] at held
  split at held
  · next same =>
      cases held
      exact here.trans same.symm
  · exact named id node held

theorem Rooted.set (rooted : Rooted state tree) {id : String} {node : RunNode}
    (present : (state.nodes.get? id).isSome) (named : node.id = id) (index : PositionIndex) :
    Rooted { state with nodes := state.nodes.set id node, index := index } tree := by
  apply rooted.rewrite
  case stored =>
    intro other
    rw [OrderedMap.get?_set]
    split
    · next same =>
        rw [same, present]
        rfl
    · rfl
  case named => exact named_set rooted.named named

theorem Rooted.fresh (rooted : Rooted state tree) {id : String}
    (absent : ¬ (state.nodes.get? id).isSome = true) : id ∉ tree.order :=
  fun member => absent (rooted.stored id member)

end Rooted

section Grown

variable {state : DocState} {tree : Forest String}

theorem Grown.rooted (grown : Grown state tree) : Rooted state tree where
  top := grown.top
  follows := grown.follows
  nodup := grown.nodup
  stored := fun id member => (grown.stored id).mp member
  named := grown.named

theorem Grown.length_le (grown : Grown state tree) :
    tree.order.length ≤ state.nodes.keys.length := grown.rooted.length_le

theorem Grown.visibleRuns (grown : Grown state tree) :
    state.visibleRuns = tree.order.filterMap (shown state.nodes) := grown.rooted.visibleRuns

variable {nodes : OrderedMap String RunNode}

theorem shown_eq_some {id : String} {node : RunNode} :
    shown nodes id = some node ↔ nodes.get? id = some node ∧ node.visible = true := by
  rw [shown, Option.filter_eq_some_iff]

theorem runId_of_mem_spansOf (named : ∀ id node, state.nodes.get? id = some node → node.id = id)
    {ids : List String} {span : RunSpan} (member : span ∈ spansOf state.nodes ids) :
    span.runId ∈ ids := by
  rcases List.mem_map.mp member with ⟨node, listed, rfl⟩
  rcases List.mem_filterMap.mp listed with ⟨id, inside, found⟩
  rw [RunNode.span, named id node (shown_eq_some.mp found).1]
  exact inside

theorem spansOf_append (nodes : OrderedMap String RunNode) (left right : List String) :
    spansOf nodes (left ++ right) = spansOf nodes left ++ spansOf nodes right := by
  rw [spansOf, List.filterMap_append, List.map_append]
  rfl

theorem spansOf_cons (nodes : OrderedMap String RunNode) (id : String) (rest : List String) :
    spansOf nodes (id :: rest) =
      ((shown nodes id).map RunNode.span).toList ++ spansOf nodes rest := by
  rw [spansOf, List.filterMap_cons]
  cases shown nodes id with
  | none => rfl
  | some _ => rfl

theorem spansOf_congr {others : OrderedMap String RunNode} {ids : List String}
    (same : ∀ id ∈ ids, (shown others id).map RunNode.span = (shown nodes id).map RunNode.span) :
    spansOf others ids = spansOf nodes ids := by
  rw [spansOf, spansOf, List.map_filterMap, List.map_filterMap]
  exact List.filterMap_congr same

theorem spansOf_around {nodes others : OrderedMap String RunNode} {before after : List String}
    {id : String} (nodup : (before ++ id :: after).Nodup)
    (same : ∀ other, other ≠ id → others.get? other = nodes.get? other) :
    spansOf others (before ++ id :: after) = spansOf nodes before ++
      (((shown others id).map RunNode.span).toList ++ spansOf nodes after) := by
  rw [List.nodup_append, List.nodup_cons] at nodup
  rcases nodup with ⟨_, ⟨outAfter, _⟩, apart⟩
  have unchanged : ∀ ids : List String, id ∉ ids → spansOf others ids = spansOf nodes ids := by
    intro ids absent
    apply spansOf_congr
    intro other member
    have different : other ≠ id := by
      rintro rfl
      exact absent member
    rw [shown, shown, same other different]
  rw [spansOf_append, spansOf_cons, unchanged after outAfter, unchanged before]
  exact fun member => apart id member id List.mem_cons_self rfl

theorem Grown.apart (grown : Grown state tree) {before after : List String} {id : String}
    (whole : tree.order = before ++ id :: after) :
    (∀ span ∈ spansOf state.nodes before, span.runId ≠ id) ∧
      ∀ span ∈ spansOf state.nodes after, span.runId ≠ id := by
  have nodup := grown.nodup
  rw [whole, List.nodup_append, List.nodup_cons] at nodup
  constructor
  · intro span listed same
    have inside := runId_of_mem_spansOf grown.named listed
    exact nodup.2.2 span.runId inside id List.mem_cons_self same
  · intro span listed same
    have inside := runId_of_mem_spansOf grown.named listed
    exact nodup.2.1.1 (same ▸ inside)

theorem Grown.rewrite (grown : Grown state tree) {index : PositionIndex}
    (stored : ∀ id, (nodes.get? id).isSome = (state.nodes.get? id).isSome)
    (named : ∀ id node, nodes.get? id = some node → node.id = id)
    (root : ∃ node, nodes.get? rootId = some node ∧ node.text = [] ∧ node.deleted = false) :
    Grown { state with nodes, index } tree where
  top := grown.top
  follows := grown.follows
  nodup := grown.nodup
  stored := by
    intro id
    rw [stored]
    exact grown.stored id
  bare := grown.bare
  named := named
  root := root

theorem Grown.reindex (grown : Grown state tree) (index : PositionIndex) :
    Grown { state with index := index } tree where
  top := grown.top
  follows := grown.follows
  nodup := grown.nodup
  stored := grown.stored
  bare := grown.bare
  named := grown.named
  root := grown.root

theorem Grown.set (grown : Grown state tree) {id : String} {node : RunNode}
    (present : (state.nodes.get? id).isSome) (named : node.id = id)
    (root : id = rootId → node.text = [] ∧ node.deleted = false) (index : PositionIndex) :
    Grown { state with nodes := state.nodes.set id node, index := index } tree := by
  have rooted := grown.rooted.set present named index
  apply grown.rewrite
  case stored =>
    intro other
    rw [OrderedMap.get?_set]
    split
    · next same =>
        rw [same, present]
        rfl
    · rfl
  case named => exact rooted.named
  case root =>
    rw [OrderedMap.get?_set]
    split
    · next same => exact ⟨node, rfl, root same.symm⟩
    · exact grown.root

end Grown

/-! ## Changing one run -/

section Changing

variable {state : DocState} {tree : Forest String}

variable {id : String}

theorem Lists.around (lists : Lists state tree) (grown : Grown state tree)
    {before after : List String} (whole : tree.order = before ++ id :: after) :
    state.index.spans = spansOf state.nodes before ++
      (((shown state.nodes id).map RunNode.span).toList ++ spansOf state.nodes after) := by
  have nodup := grown.nodup
  rw [whole] at nodup
  rw [lists.spans, whole]
  exact spansOf_around nodup fun _ _ => rfl

theorem shown_set_self (nodes : OrderedMap String RunNode) (id : String) (node : RunNode) :
    shown (nodes.set id node) id = (some node).filter RunNode.visible := by
  rw [shown, OrderedMap.get?_set_self]

theorem Lists.write (lists : Lists state tree) (grown : Grown state tree) {id : String}
    (member : id ∈ tree.order) (node : RunNode) {spans : List RunSpan} {totalLength : Int}
    (written : ∀ before after : List RunSpan, (∀ span ∈ before, span.runId ≠ id) →
      (∀ span ∈ after, span.runId ≠ id) →
      state.index.spans = before ++ (((shown state.nodes id).map RunNode.span).toList ++ after) →
        spans = before ++ ((((some node).filter RunNode.visible).map RunNode.span).toList ++ after) ∧
          totalLength = ((spans.map RunSpan.length).sum : Nat)) :
    Lists { state with
      nodes := state.nodes.set id node
      index := { spans, totalLength } } tree := by
  rcases List.append_of_mem member with ⟨before, after, whole⟩
  have apart := grown.apart whole
  have nodup := grown.nodup
  rw [whole] at nodup
  have parts := written _ _ apart.1 apart.2 (lists.around grown whole)
  constructor
  case spans =>
    have around := @spansOf_around state.nodes (state.nodes.set id node) before after id nodup
      fun other different => OrderedMap.get?_set_of_ne _ different _
    rw [whole]
    rw [around, shown_set_self]
    exact parts.1
  case total => exact parts.2

theorem map_of_ne {spans : List RunSpan} (apart : ∀ span ∈ spans, span.runId ≠ id)
    (change : RunSpan → RunSpan) :
    (spans.map fun span => if span.runId = id then change span else span) = spans := by
  rw [List.map_congr_left fun span member => if_neg (apart span member), List.map_id']

theorem filter_of_ne {spans : List RunSpan} (apart : ∀ span ∈ spans, span.runId ≠ id) :
    (spans.filter fun span => span.runId != id) = spans := by
  rw [List.filter_eq_self]
  exact fun span member => bne_iff_ne.mpr (apart span member)

theorem shown_named {nodes : OrderedMap String RunNode} {node : RunNode} (named : node.id = id)
    (found : nodes.get? id = some node) (live : node.deleted = false) :
    shown nodes id = if id = rootId then none else some node := by
  rw [shown, found, Option.filter_some, RunNode.visible, live, named]
  by_cases same : id = rootId
  · rw [if_pos same, same]
    rfl
  · rw [if_neg same, if_pos (by simpa using same)]

theorem shown_of_live (grown : Grown state tree) {node : RunNode}
    (found : state.nodes.get? id = some node) (live : node.deleted = false) :
    shown state.nodes id = if id = rootId then none else some node :=
  shown_named (grown.named id node found) found live

theorem Lists.retext (lists : Lists state tree) (grown : Grown state tree) {id : String}
    {node next : RunNode} (found : state.nodes.get? id = some node) (live : node.deleted = false)
    (named : next.id = id) (nextLive : next.deleted = false)
    (root : id = rootId → next.text.length = node.text.length) {change : RunSpan → RunSpan}
    (changed : change node.span = next.span) {totalLength : Int}
    (total : totalLength =
      state.index.totalLength + ((next.text.length : Int) - node.text.length)) :
    Lists { state with
      nodes := state.nodes.set id next
      index := {
        spans := state.index.spans.map fun span =>
          if span.runId = id then change span else span
        totalLength } } tree := by
  have member : id ∈ tree.order := (grown.stored id).mpr (found ▸ rfl)
  apply lists.write grown member
  intro before after beforeApart afterApart spans
  rw [shown_of_live grown found live] at spans
  have visible : (some next).filter RunNode.visible = if id = rootId then none else some next := by
    rw [Option.filter_some, RunNode.visible, nextLive, named]
    by_cases same : id = rootId
    · rw [if_pos same, same]
      rfl
    · rw [if_neg same, if_pos (by simpa using same)]
  rw [visible, total, lists.total, spans]
  by_cases same : id = rootId
  · rw [if_pos same, if_pos same, root same]
    simp only [Option.map_none, Option.toList_none, List.nil_append, List.map_append,
      map_of_ne beforeApart, map_of_ne afterApart, List.sum_append]
    refine ⟨trivial, ?_⟩
    omega
  · rw [if_neg same, if_neg same]
    have here : (node.span).runId = id := grown.named id node found
    simp only [Option.map_some, Option.toList_some, List.cons_append, List.nil_append,
      List.map_append, List.map_cons, map_of_ne beforeApart, map_of_ne afterApart, here, if_true,
      changed, List.sum_append, List.sum_cons]
    refine ⟨trivial, ?_⟩
    rw [RunNode.span, RunNode.span]
    push_cast
    omega

theorem extended (grown : Grown state tree) (lists : Lists state tree) {runId : String}
    {appendText : List UInt16} (root : runId = rootId → appendText = []) (hlc : HLCTimestamp) :
    Grown (state.applyExtendRun runId appendText hlc) tree ∧
      Lists (state.applyExtendRun runId appendText hlc) tree := by
  rw [applyExtendRun]
  split
  · exact ⟨grown, lists⟩
  · next node found =>
      split
      · exact ⟨grown, lists⟩
      · next live =>
          have live : node.deleted = false := Bool.not_eq_true _ ▸ live
          have named := grown.named runId node found
          constructor
          · refine @Grown.set state tree grown runId
              { node with text := node.text ++ appendText, hlc } (found ▸ rfl) named ?_ _
            intro same
            rcases grown.root with ⟨rootNode, rootFound, empty, rootLive⟩
            rw [← same, found] at rootFound
            cases rootFound
            exact ⟨by rw [empty, root same]; rfl, live⟩
          · refine @Lists.retext state tree lists grown runId node
              { node with text := node.text ++ appendText, hlc } found live named live ?_
              (fun span => { span with length := span.length + appendText.length }) ?_ _ ?_
            · intro same
              rw [root same, List.append_nil]
            · rw [RunNode.span, RunNode.span, List.length_append]
            · rw [List.length_append]
              push_cast
              omega

theorem replaced (grown : Grown state tree) (lists : Lists state tree) {runId : String}
    {newNode : RunNode} (root : runId = rootId → newNode.text = []) :
    Grown (state.applySetRun runId newNode) tree ∧
      Lists (state.applySetRun runId newNode) tree := by
  rw [applySetRun]
  split
  · exact ⟨grown, lists⟩
  · next existing found =>
      split
      · exact ⟨grown, lists⟩
      · next live =>
          have live : existing.deleted = false := Bool.not_eq_true _ ▸ live
          constructor
          · exact @Grown.set state tree grown runId { newNode with
              id := runId
              parentId := existing.parentId
              deleted := false } (found ▸ rfl) rfl (fun same => ⟨root same, rfl⟩) _
          · refine @Lists.retext state tree lists grown runId existing { newNode with
              id := runId
              parentId := existing.parentId
              deleted := false } found live rfl rfl ?_
              (fun span => { span with length := newNode.text.length }) ?_ _ rfl
            · intro same
              rcases grown.root with ⟨rootNode, rootFound, empty, _⟩
              rw [← same, found] at rootFound
              cases rootFound
              rw [empty, root same]
            · rw [RunNode.span, RunNode.span, grown.named runId existing found]

theorem tombstoned (grown : Grown state tree) (lists : Lists state tree) {runId : String}
    (other : runId ≠ rootId) :
    Grown (state.tombstoneRun runId) tree ∧ Lists (state.tombstoneRun runId) tree := by
  rw [tombstoneRun]
  split
  · exact ⟨grown, lists⟩
  · next node found =>
      split
      · exact ⟨grown, lists⟩
      · next live =>
          have live : node.deleted = false := Bool.not_eq_true _ ▸ live
          have named := grown.named runId node found
          constructor
          · exact @Grown.set state tree grown runId { node with deleted := true } (found ▸ rfl) named
              (fun same => absurd same other) _
          · apply lists.write grown ((grown.stored runId).mpr (found ▸ rfl))
            intro before after beforeApart afterApart spans
            rw [shown_of_live grown found live, if_neg other] at spans
            have hidden : (some ({ node with deleted := true } : RunNode)).filter
                RunNode.visible = none := rfl
            rw [hidden, lists.total, spans]
            have here : ((node.span).runId != runId) = false := by
              rw [RunNode.span, named, bne_self_eq_false]
            simp only [Option.map_some, Option.map_none, Option.toList_some, Option.toList_none,
              List.cons_append, List.nil_append, List.filter_append, List.filter_cons, here,
              filter_of_ne beforeApart, filter_of_ne afterApart, List.map_append, List.map_cons,
              List.sum_append, List.sum_cons]
            refine ⟨rfl, ?_⟩
            rw [RunNode.span]
            push_cast
            omega

end Changing

/-! ## Splitting a run -/

section Splitting

variable {state : DocState} {tree : Forest String}

/-- Maps whose nodes differ in their parents at most. -/
def SameRuns (nodes others : OrderedMap String RunNode) : Prop :=
  ∀ id, (others.get? id).map (fun node => { node with parentId := "" }) =
    (nodes.get? id).map fun node => { node with parentId := "" }

theorem SameRuns.refl (nodes : OrderedMap String RunNode) : SameRuns nodes nodes := fun _ => rfl

theorem SameRuns.trans {first second third : OrderedMap String RunNode}
    (before : SameRuns first second) (after : SameRuns second third) : SameRuns first third :=
  fun id => (after id).trans (before id)

theorem sameRuns_foldl (splitId : String) (childIds : List String)
    (nodes : OrderedMap String RunNode) :
    SameRuns nodes (childIds.foldl
      (fun nodes childId =>
        match nodes.get? childId with
        | some child => nodes.set childId { child with parentId := splitId }
        | none => nodes) nodes) := by
  induction childIds generalizing nodes with
  | nil => exact SameRuns.refl nodes
  | cons childId rest induction =>
      apply SameRuns.trans ?_ (induction _)
      intro id
      dsimp only
      split
      · next child found =>
          rw [OrderedMap.get?_set]
          split
          · next same =>
              rw [same, found]
              rfl
          · rfl
      · rfl

variable {nodes others : OrderedMap String RunNode}

section

variable (same : SameRuns nodes others)
include same

theorem SameRuns.node {id : String} {node : RunNode} (found : others.get? id = some node) :
    ∃ parentId, nodes.get? id = some { node with parentId } := by
  have here := same id
  rw [found] at here
  rcases Option.map_eq_some_iff.mp here.symm with ⟨other, held, equal⟩
  refine ⟨other.parentId, held.trans ?_⟩
  rcases node with ⟨_, _, _, _, _, _⟩
  rcases other with ⟨_, _, _, _, _, _⟩
  cases equal
  rfl

theorem SameRuns.named (named : ∀ id node, nodes.get? id = some node → node.id = id) :
    ∀ id node, others.get? id = some node → node.id = id := by
  intro id node held
  rcases same.node held with ⟨parentId, before⟩
  exact named id { node with parentId } before

theorem SameRuns.symm :
    SameRuns others nodes := fun id => (same id).symm

theorem SameRuns.isSome (id : String) : (others.get? id).isSome = (nodes.get? id).isSome := by
  have here := congrArg Option.isSome (same id)
  rw [Option.isSome_map, Option.isSome_map] at here
  exact here

theorem SameRuns.spansOf (ids : List String)
    : DocState.spansOf others ids = DocState.spansOf nodes ids := by
  apply spansOf_congr
  intro id _
  rw [shown, shown]
  cases found : others.get? id with
  | none =>
      have here := same id
      rw [found] at here
      rw [Option.map_eq_none_iff.mp here.symm]
  | some node =>
      rcases same.node found with ⟨parentId, held⟩
      rw [held, Option.filter_some, Option.filter_some]
      change _ = Option.map _ (if node.visible = true then _ else _)
      split
      · rfl
      · rfl

end

theorem Grown.reparent (grown : Grown state tree) (same : SameRuns state.nodes nodes)
    : Grown { state with nodes := nodes } tree := by
  apply grown.rewrite
  case stored => exact same.isSome
  case named => exact same.named grown.named
  case root =>
    rcases grown.root with ⟨node, found, empty, live⟩
    rcases same.symm.node found with ⟨parentId, held⟩
    exact ⟨{ node with parentId }, held, empty, live⟩

theorem drop_middle (before after : List RunSpan) (span : RunSpan) :
    (before ++ span :: after).drop (before.length + 1) = after := by
  rw [List.append_cons, List.drop_left' (by rw [List.length_append]; rfl)]

theorem findIdx?_of_apart {before after : List RunSpan} {id : String} {span : RunSpan}
    (apart : ∀ other ∈ before, other.runId ≠ id) (here : span.runId = id) :
    (before ++ span :: after).findIdx? (fun span => span.runId == id) = some before.length := by
  induction before with
  | nil => simp [List.findIdx?_cons, here]
  | cons other rest induction =>
      have different : (other.runId == id) = false :=
        beq_eq_false_iff_ne.mpr (apart other List.mem_cons_self)
      rw [List.cons_append, List.findIdx?_cons, different,
        induction fun other member => apart other (List.mem_cons_of_mem _ member)]
      rfl

theorem nodup_middle {left right : List String} {id : String} (nodup : (left ++ right).Nodup)
    (fresh : id ∉ left ++ right) : (left ++ id :: right).Nodup :=
  List.perm_middle.nodup_iff.mpr (List.nodup_cons.mpr ⟨fresh, nodup⟩)

theorem Grown.fresh (grown : Grown state tree) {id : String}
    (absent : ¬ (state.nodes.get? id).isSome = true) : id ∉ tree.order := grown.rooted.fresh absent

theorem Rooted.halved (rooted : Rooted state tree) {runId splitId : String} {left right : RunNode}
    (member : runId ∈ tree.order) (fresh : ¬ (state.nodes.get? splitId).isSome = true)
    (leftNamed : left.id = runId) (rightNamed : right.id = splitId) (index : PositionIndex) :
    Rooted {
      nodes := (state.nodes.set runId left).set splitId right
      children := (state.children.set splitId (state.childIds runId)).set runId [splitId]
      index } (tree.interpose runId splitId) := by
  have outside := rooted.fresh fresh
  have different : splitId ≠ runId := by
    rintro rfl
    exact outside member
  rcases Forest.order_interpose splitId rooted.nodup member with ⟨before, after, whole, grownOrder⟩
  constructor
  case top => rw [Forest.roots_interpose, rooted.top]
  case follows =>
    apply rooted.follows.interpose rooted.nodup outside
    · rw [childIds, OrderedMap.get?_set_self]
      rfl
    · rw [childIds, OrderedMap.get?_set_of_ne _ different, OrderedMap.get?_set_self]
      rfl
    · intro id inside elsewhere
      have apart : id ≠ splitId := by
        rintro rfl
        exact outside inside
      rw [childIds, OrderedMap.get?_set_of_ne _ elsewhere, OrderedMap.get?_set_of_ne _ apart]
      rfl
  case nodup =>
    have nodup := rooted.nodup
    rw [whole, List.append_cons] at nodup
    rw [grownOrder, List.append_cons]
    apply nodup_middle nodup
    rw [← List.append_cons, ← whole]
    exact outside
  case stored =>
    intro id inside
    rw [grownOrder, List.append_cons, List.perm_middle.mem_iff, List.mem_cons, ← List.append_cons,
      ← whole] at inside
    rw [OrderedMap.get?_set, OrderedMap.get?_set]
    split
    · rfl
    · next elsewhere =>
        split
        · rfl
        · exact rooted.stored id (inside.resolve_left elsewhere)
  case named => exact named_set (named_set rooted.named leftNamed) rightNamed

theorem halved_grown (grown : Grown state tree) {runId splitId : String} {node left right : RunNode}
    (found : state.nodes.get? runId = some node)
    (fresh : ¬ (state.nodes.get? splitId).isSome = true) (other : runId ≠ rootId)
    (leftNamed : left.id = runId) (rightNamed : right.id = splitId) (index : PositionIndex) :
    Grown {
      nodes := (state.nodes.set runId left).set splitId right
      children := (state.children.set splitId (state.childIds runId)).set runId [splitId]
      index } (tree.interpose runId splitId) := by
  have member : runId ∈ tree.order := (grown.stored runId).mpr (found ▸ rfl)
  have halved := grown.rooted.halved member fresh leftNamed rightNamed index
  rcases Forest.order_interpose splitId grown.nodup member with ⟨before, after, whole, grownOrder⟩
  have members : ∀ id, id ∈ (tree.interpose runId splitId).order ↔ id = splitId ∨ id ∈ tree.order := by
    intro id
    rw [grownOrder, whole]
    simp only [List.mem_append, List.mem_cons]
    grind
  constructor
  case top => exact halved.top
  case follows => exact halved.follows
  case nodup => exact halved.nodup
  case stored =>
    intro id
    rw [members, grown.stored id, OrderedMap.get?_set, OrderedMap.get?_set]
    split
    · next same => exact iff_of_true (.inl same) rfl
    · next apart =>
        split
        · next same => exact iff_of_true (.inr (by rw [same, found]; rfl)) rfl
        · exact or_iff_right apart
  case bare =>
    intro id absent
    rw [members, not_or] at absent
    have elsewhere : id ≠ runId := by
      rintro rfl
      exact absent.2 member
    rw [childIds, OrderedMap.get?_set_of_ne _ elsewhere, OrderedMap.get?_set_of_ne _ absent.1]
    exact grown.bare id absent.2
  case named => exact halved.named
  case root =>
    rcases grown.root with ⟨root, rootFound, empty, live⟩
    have apart : rootId ≠ splitId := by
      rintro same
      rw [← same, rootFound] at fresh
      exact fresh rfl
    refine ⟨root, ?_, empty, live⟩
    rw [OrderedMap.get?_set_of_ne _ apart, OrderedMap.get?_set_of_ne _ other.symm]
    exact rootFound

theorem spansOf_halved (grown : Grown state tree) {runId splitId : String} {left right : RunNode}
    (fresh : ¬ (state.nodes.get? splitId).isSome = true) {before after : List String}
    (whole : tree.order = before ++ runId :: after) :
    spansOf ((state.nodes.set runId left).set splitId right) (before ++ runId :: splitId :: after) =
      spansOf state.nodes before ++
        ((((some left).filter RunNode.visible).map RunNode.span).toList ++
          ((((some right).filter RunNode.visible).map RunNode.span).toList ++
            spansOf state.nodes after)) := by
  have nodup := grown.nodup
  have outside := grown.fresh fresh
  rw [whole, List.mem_append, List.mem_cons, not_or, not_or] at outside
  rw [whole, List.nodup_append, List.nodup_cons] at nodup
  have unchanged : ∀ ids : List String, runId ∉ ids → splitId ∉ ids →
      spansOf ((state.nodes.set runId left).set splitId right) ids = spansOf state.nodes ids := by
    intro ids noLeft noRight
    apply spansOf_congr
    intro id member
    have apart : id ≠ runId ∧ id ≠ splitId := by
      constructor
      · rintro rfl
        exact noLeft member
      · rintro rfl
        exact noRight member
    rw [shown, shown, OrderedMap.get?_set_of_ne _ apart.2, OrderedMap.get?_set_of_ne _ apart.1]
  have noLeft : runId ∉ before := fun member =>
    nodup.2.2 runId member runId List.mem_cons_self rfl
  rw [spansOf_append, spansOf_cons, spansOf_cons, unchanged before noLeft outside.1,
    unchanged after nodup.2.1.1 outside.2.2, shown, shown, OrderedMap.get?_set_self,
    OrderedMap.get?_set_of_ne _ (Ne.symm outside.2.1), OrderedMap.get?_set_self]

theorem splitApart (grown : Grown state tree) (lists : Lists state tree) (runId : String)
    (offset : Int) :
    ∃ next, Grown (state.applySplit runId offset) next ∧
      Lists (state.applySplit runId offset) next := by
  rw [applySplit]
  split
  · exact ⟨tree, grown, lists⟩
  · next node found =>
      dsimp only
      split
      · exact ⟨tree, grown, lists⟩
      · next inside =>
          split
          · exact ⟨tree, grown, lists⟩
          · next fresh =>
              have other : runId ≠ rootId := by
                rintro rfl
                rcases grown.root with ⟨root, rootFound, empty, _⟩
                rw [rootFound] at found
                cases found
                rw [empty] at inside
                simp only [List.length_nil] at inside
                omega
              have named := grown.named runId node found
              have member : runId ∈ tree.order := (grown.stored runId).mpr (found ▸ rfl)
              rcases Forest.order_interpose (makeSplitId runId offset) grown.nodup member with
                ⟨before, after, whole, grownOrder⟩
              have around := lists.around grown whole
              have halved := @halved_grown state tree grown runId (makeSplitId runId offset) node
                { node with text := node.text.take offset.toNat }
                { node with
                  id := makeSplitId runId offset
                  text := node.text.drop offset.toNat
                  parentId := runId } found fresh other named rfl
              have halves := @spansOf_halved state tree grown runId (makeSplitId runId offset)
                { node with text := node.text.take offset.toNat }
                { node with
                  id := makeSplitId runId offset
                  text := node.text.drop offset.toNat
                  parentId := runId } fresh before after whole
              rw [← grownOrder] at halves
              generalize (state.nodes.set runId _).set (makeSplitId runId offset) _ = nodes
                at halved halves ⊢
              have same := sameRuns_foldl (makeSplitId runId offset) (state.childIds runId) nodes
              generalize (state.childIds runId).foldl _ nodes = reparented at same ⊢
              rw [← same.spansOf] at halves
              refine ⟨tree.interpose runId (makeSplitId runId offset), ?_, ?_⟩
              · split
                · exact (halved _).reparent same
                · split
                  · exact (halved _).reparent same
                  · exact (halved _).reparent same
              · have total := lists.total
                split
                · next deleted =>
                    have hidden : shown state.nodes runId = none := by
                      rw [shown, found, Option.filter_some, RunNode.visible, deleted]
                      rfl
                    rw [hidden] at around
                    simp only [Option.filter_some, RunNode.visible, deleted, Bool.not_true,
                      Bool.false_and, Bool.false_eq_true, if_false] at halves
                    exact ⟨around.trans halves.symm, total⟩
                · next live =>
                    have live : node.deleted = false := Bool.not_eq_true _ ▸ live
                    have visible : shown state.nodes runId = some node := by
                      rw [shown_of_live grown found live, if_neg other]
                    have halfVisible : (runId != rootId) = true ∧
                        (makeSplitId runId offset != rootId) = true := by
                      constructor
                      · exact bne_iff_ne.mpr other
                      · apply bne_iff_ne.mpr
                        intro isRoot
                        rcases grown.root with ⟨root, rootFound, _⟩
                        rw [isRoot, rootFound] at fresh
                        exact fresh rfl
                    have size : node.text.length = offset.toNat +
                        (node.text.length - offset.toNat) := by omega
                    simp only [Option.filter_some, RunNode.visible, live, named, halfVisible,
                      Bool.not_false, Bool.true_and, if_true, Option.map_some, Option.toList_some,
                      RunNode.span, List.length_take, List.length_drop, List.cons_append,
                      List.nil_append] at halves
                    rw [visible] at around
                    have around : state.index.spans = spansOf state.nodes before ++
                      node.span :: spansOf state.nodes after := around
                    rw [around, findIdx?_of_apart (grown.apart whole).1 named]
                    dsimp only
                    rw [List.take_left, drop_middle]
                    rw [around] at total
                    have cut : min offset.toNat node.text.length = offset.toNat := by omega
                    rw [cut] at halves
                    constructor
                    case spans => exact halves.symm
                    case total =>
                      rw [total]
                      simp only [RunNode.span, List.map_append, List.map_cons, List.sum_append,
                        List.sum_cons]
                      push_cast
                      omega

end Splitting

/-! ## Inserting a run -/

section Inserting

variable {state : DocState} {tree : Forest String}

variable {ids : List String} {node : RunNode} {before after : List String}

theorem takeWhile_of_apart {before after : List RunSpan}
    (inside : ∀ span ∈ before, span.runId ∈ ids) (outside : ∀ span ∈ after, span.runId ∉ ids) :
    (before ++ after).takeWhile (fun span => decide (span.runId ∈ ids)) = before := by
  rw [List.takeWhile_append_of_pos fun span member => decide_eq_true (inside span member)]
  cases after with
  | nil => exact List.append_nil _
  | cons span rest =>
      rw [List.takeWhile_cons_of_neg, List.append_nil]
      rw [decide_eq_true_eq]
      exact outside span List.mem_cons_self

theorem mem_order_of_mem_orderTake {count : Nat} {forest : Forest String} {id : String}
    (member : id ∈ Forest.orderTake count forest) : id ∈ forest.order := by
  rw [← Forest.orderTake_append_orderDrop count forest]
  exact List.mem_append_left _ member

theorem skipSubtrees_spec (named : ∀ id node, state.nodes.get? id = some node → node.id = id)
    {forest : Forest String} (follows : forest.Follows state.childIds) (nodup : forest.order.Nodup)
    (enough : forest.order.length ≤ state.nodes.keys.length) {count start : Nat}
    {rest : List RunSpan}
    (here : state.index.spans.drop start =
      spansOf state.nodes (Forest.orderTake count forest) ++ rest)
    (beyond : ∀ span ∈ rest, span.runId ∉ Forest.orderTake count forest) :
    state.skipSubtrees (forest.roots.take count) start =
      start + (spansOf state.nodes (Forest.orderTake count forest)).length := by
  induction forest generalizing count start with
  | nil =>
      rw [Forest.roots, List.take_nil, skipSubtrees]
      cases count with
      | zero => rfl
      | succ _ => rfl
  | cons root below after _ induction =>
      rcases Forest.nodup_cons.mp nodup with ⟨_, outAfter, belowNodup, afterNodup, apart⟩
      cases count with
      | zero => rfl
      | succ count =>
          have subtree : state.collectSubtreeIds root = root :: below.order := by
            have alone : (Forest.cons root below .nil).Follows state.childIds :=
              ⟨follows.1, follows.2.1, trivial⟩
            have order : (Forest.cons root below .nil).order = root :: below.order := by
              rw [Forest.order, Forest.order, List.append_nil]
            rw [collectSubtreeIds, ← order]
            apply Forest.collect_roots alone
            rw [order]
            rw [Forest.order, List.length_cons, List.length_append] at enough
            rw [List.length_cons]
            omega
          have whole : Forest.orderTake (count + 1) (.cons root below after) =
              (root :: below.order) ++ Forest.orderTake count after := rfl
          rw [whole, spansOf_append, List.append_assoc] at here
          rw [whole] at beyond
          have later : ∀ span ∈ spansOf state.nodes (Forest.orderTake count after) ++ rest,
              span.runId ∉ root :: below.order := by
            intro span member inside
            rcases List.mem_append.mp member with listed | listed
            · have deeper := mem_order_of_mem_orderTake (runId_of_mem_spansOf named listed)
              rcases List.mem_cons.mp inside with same | inBelow
              · exact outAfter (same ▸ deeper)
              · exact apart _ inBelow deeper
            · exact beyond span listed (List.mem_append_left _ inside)
          have passed : (state.index.spans.drop start).takeWhile
              (fun span => decide (span.runId ∈ state.collectSubtreeIds root)) =
                spansOf state.nodes (root :: below.order) := by
            rw [here, subtree]
            exact takeWhile_of_apart (fun span member => runId_of_mem_spansOf named member) later
          have further : state.index.spans.drop
              (start + (spansOf state.nodes (root :: below.order)).length) =
                spansOf state.nodes (Forest.orderTake count after) ++ rest := by
            rw [← List.drop_drop, here, List.drop_left]
          rw [Forest.roots, List.take_succ_cons, skipSubtrees, passed]
          rw [induction follows.2.2 afterNodup (by
            rw [Forest.order, List.length_cons, List.length_append] at enough
            omega) further fun span member inside =>
              beyond span member (List.mem_append_right _ inside)]
          rw [whole, spansOf_append, List.length_append, Nat.add_assoc]

/-- The index of a new run among the children of its parent. -/
def placeOf (state : DocState) (node : RunNode) : Nat :=
  siblingIndex { state with nodes := state.nodes.set node.id node } node
    (state.childIds node.parentId)

theorem get?_withRun_self (state : DocState) (node : RunNode) :
    (state.withRun node).nodes.get? node.id = some node := OrderedMap.get?_set_self _ _ _

theorem get?_withRun_of_ne {state : DocState} {id : String} {node : RunNode}
    (different : id ≠ node.id) : (state.withRun node).nodes.get? id = state.nodes.get? id :=
  OrderedMap.get?_set_of_ne _ different _

theorem childIds_withRun (state : DocState) (node : RunNode) (id : String) :
    (state.withRun node).childIds id =
      if id = node.parentId then (state.childIds node.parentId).take (placeOf state node) ++
        node.id :: (state.childIds node.parentId).drop (placeOf state node)
      else state.childIds id := by
  have listed : ∀ children : OrderedMap String (List String),
      ((if (children.get? node.id).isSome then children else children.set node.id []).get? id).getD
        [] = (children.get? id).getD [] := by
    intro children
    split
    · rfl
    · next absent =>
        rw [OrderedMap.get?_set]
        split
        · next same =>
            rw [same, Option.not_isSome_iff_eq_none.mp absent]
            rfl
        · rfl
  rw [withRun, childIds]
  dsimp only
  rw [listed, OrderedMap.get?_set]
  split
  · rfl
  · rfl

theorem Grown.withRun (grown : Grown state tree)
    (fresh : ¬ (state.nodes.get? node.id).isSome = true)
    (parent : (state.nodes.get? node.parentId).isSome = true) :
    Grown (state.withRun node) (tree.insertUnder node.parentId node.id (placeOf state node)) := by
  have outside := grown.fresh fresh
  have member : node.parentId ∈ tree.order := (grown.stored _).mpr parent
  have apart : node.id ≠ node.parentId := by
    intro same
    rw [← same] at member
    exact outside member
  have table := childIds_withRun state node
  rcases Forest.order_insertUnder_middle node.id (placeOf state node) grown.follows grown.nodup
    member with ⟨before, after, whole, grownOrder⟩
  have members : ∀ id, id ∈ (tree.insertUnder node.parentId node.id (placeOf state node)).order ↔
      id = node.id ∨ id ∈ tree.order := by
    intro id
    rw [grownOrder, whole, List.mem_append, List.mem_append, List.mem_cons]
    exact or_left_comm
  constructor
  case top => rw [Forest.roots_insertUnder, grown.top]
  case follows =>
    apply grown.follows.insertUnder grown.nodup outside
    · rw [table, if_neg apart, grown.bare node.id outside]
    · rw [table, if_pos rfl]
    · intro id _ elsewhere
      rw [table, if_neg elsewhere]
  case nodup =>
    rw [grownOrder]
    rw [whole] at outside
    have nodup := grown.nodup
    rw [whole] at nodup
    exact nodup_middle nodup outside
  case stored =>
    intro id
    rw [members, grown.stored id]
    change _ ↔ ((state.nodes.set node.id node).get? id).isSome = true
    rw [OrderedMap.get?_set]
    split
    · next same => exact iff_of_true (.inl same) rfl
    · next elsewhere => exact or_iff_right elsewhere
  case bare =>
    intro id absent
    rw [members, not_or] at absent
    have elsewhere : id ≠ node.parentId := by
      rintro rfl
      exact absent.2 member
    rw [table, if_neg elsewhere]
    exact grown.bare id absent.2
  case named => exact named_set grown.named rfl
  case root =>
    rcases grown.root with ⟨root, found, empty, live⟩
    refine ⟨root, ?_, empty, live⟩
    change (state.nodes.set node.id node).get? rootId = some root
    rw [OrderedMap.get?_set_of_ne _ fun same => fresh (by rw [← same, found]; rfl)]
    exact found

/-- A new run is last in document order. -/
def Trailing (state : DocState) (node : RunNode) : Prop :=
  (state.withRun node).visibleRuns.getLast? = some node

/-- The index has a place for a new run: it shows no text, its parent is no tombstone, or
it comes last. -/
def Placed (state : DocState) (node : RunNode) : Prop :=
  node.deleted = true ∨
    (∃ parent, state.nodes.get? node.parentId = some parent ∧ parent.deleted = false) ∨
    Trailing state node

theorem take_findIdx_middle {left right : List String} {id : String} (absent : id ∉ left) :
    (left ++ id :: right).take ((left ++ id :: right).findIdx fun other => other == id) = left := by
  induction left with
  | nil => simp [List.findIdx_cons]
  | cons head rest induction =>
      rw [List.mem_cons, not_or] at absent
      have different : (head == id) = false := beq_eq_false_iff_ne.mpr (Ne.symm absent.1)
      rw [List.cons_append, List.findIdx_cons, different]
      dsimp only [cond_false]
      rw [List.take_succ_cons, induction absent.2]

theorem shown_of_mem_spansOf (named : ∀ id node, state.nodes.get? id = some node → node.id = id)
    {span : RunSpan} (member : span ∈ spansOf state.nodes ids) :
    ∃ node, shown state.nodes span.runId = some node := by
  rcases List.mem_map.mp member with ⟨node, listed, rfl⟩
  rcases List.mem_filterMap.mp listed with ⟨id, _, found⟩
  refine ⟨node, ?_⟩
  rw [RunNode.span, named id node (shown_eq_some.mp found).1]
  exact found

theorem Grown.shown_root (grown : Grown state tree) : shown state.nodes rootId = none := by
  rcases grown.root with ⟨root, found, _, live⟩
  rw [shown_of_live grown found live, if_pos rfl]

theorem Grown.nothing_before_root (grown : Grown state tree)
    (whole : tree.order = before ++ rootId :: after) : before = [] := by
  have top := grown.top
  cases tree with
  | nil => cases top
  | cons root below rest =>
      rw [Forest.roots] at top
      have nodup := grown.nodup
      rw [whole] at nodup
      rw [(List.cons.inj top).1, Forest.order] at whole
      cases before with
      | nil => rfl
      | cons head others =>
          rw [List.cons_append] at whole
          rw [← (List.cons.inj whole).1, List.cons_append, List.nodup_cons] at nodup
          exact absurd (List.mem_append_right _ List.mem_cons_self) nodup.1

theorem spansOf_after_trailing (grown : Grown state tree)
    (whole : tree.order = before ++ node.id :: after)
    (visible : shown state.nodes node.id = some node)
    (last : state.visibleRuns.getLast? = some node) : spansOf state.nodes after = [] := by
  have nodup := grown.nodup
  rw [whole, List.nodup_append, List.nodup_cons] at nodup
  rw [grown.visibleRuns, whole, List.filterMap_append, List.filterMap_cons, visible] at last
  cases rest : after.filterMap (shown state.nodes) with
  | nil =>
      rw [spansOf, rest]
      rfl
  | cons first others =>
      rw [rest, List.getLast?_append, List.getLast?_cons_cons] at last
      have member : node ∈ first :: others := by
        apply List.mem_of_getLast?
        rw [List.getLast?_cons] at last ⊢
        exact last
      rw [← rest] at member
      rcases List.mem_filterMap.mp member with ⟨id, inside, found⟩
      rw [grown.named id node (shown_eq_some.mp found).1] at nodup
      exact absurd inside nodup.2.1.1

theorem spansOf_set_of_notMem {nodes : OrderedMap String RunNode} {id : String} (absent : id ∉ ids)
    :
    spansOf (nodes.set id node) ids = spansOf nodes ids := by
  apply spansOf_congr
  intro other member
  have different : other ≠ id := by
    rintro rfl
    exact absent member
  rw [shown, shown, OrderedMap.get?_set_of_ne _ different]

theorem findSpanInsertIndex_eq (grown : Grown state tree) {parent : RunNode}
    (found : state.nodes.get? node.parentId = some parent) (live : parent.deleted = false)
    (whole : tree.order = before ++ node.parentId :: after) {rest : List RunSpan}
    (spans : state.index.spans = spansOf state.nodes before ++
      (((shown state.nodes node.parentId).map RunNode.span).toList ++ rest)) :
    state.findSpanInsertIndex node = state.skipSubtrees
      ((state.childIds node.parentId).take
        ((state.childIds node.parentId).findIdx fun id => id == node.id))
      (spansOf state.nodes (before ++ [node.parentId])).length := by
  have named := grown.named node.parentId parent found
  rw [findSpanInsertIndex, spansOf_append, spansOf_cons]
  by_cases root : node.parentId = rootId
  · rw [if_pos root, root, grown.shown_root]
    rw [root] at whole
    rw [grown.nothing_before_root whole]
    rfl
  · have visible : shown state.nodes node.parentId = some parent := by
      rw [shown_of_live grown found live, if_neg root]
    rw [if_neg root, spans, visible]
    have here := @findIdx?_of_apart (spansOf state.nodes before) rest node.parentId parent.span
      (grown.apart whole).1 named
    simp only [Option.map_some, Option.toList_some, List.cons_append, List.nil_append, here]
    rw [List.length_append]
    rfl

theorem findSpanInsertIndex_of_hidden
    (named : ∀ id run, state.nodes.get? id = some run → run.id = id)
    (listed : state.index.spans = spansOf state.nodes ids) (notRoot : node.parentId ≠ rootId)
    (hidden : shown state.nodes node.parentId = none) :
    state.findSpanInsertIndex node = state.index.spans.length := by
  have unlisted : state.index.spans.findIdx? (fun span => span.runId == node.parentId) = none := by
    rw [List.findIdx?_eq_none_iff]
    intro span member
    apply beq_eq_false_iff_ne.mpr
    intro same
    rw [listed] at member
    rcases shown_of_mem_spansOf named member with ⟨other, visible⟩
    rw [same, hidden] at visible
    cases visible
  rw [findSpanInsertIndex, if_neg notRoot, unlisted]

/-- The order around the parent of a new run: the runs `below` it are part of its subtree, and
the new one comes between two of its children. -/
structure Around (state : DocState) (tree : Forest String) (node : RunNode)
    (before : List String) (below : Forest String) (after : List String) : Prop where
  whole : tree.order = before ++ node.parentId :: (below.order ++ after)
  next : (tree.insertUnder node.parentId node.id (placeOf state node)).order =
    before ++ node.parentId :: (Forest.orderTake (placeOf state node) below ++
      node.id :: (Forest.orderDrop (placeOf state node) below ++ after))
  roots : state.childIds node.parentId = below.roots
  follows : below.Follows state.childIds

section Around

variable {below : Forest String}

theorem exists_around (grown : Grown state tree) (member : node.parentId ∈ tree.order) :
    ∃ before below after, Around state tree node before below after := by
  rcases Forest.order_insertUnder node.id (placeOf state node) grown.follows grown.nodup member with
    ⟨before, below, after, whole, next, roots, follows⟩
  exact ⟨before, below, after, whole, next, roots, follows⟩

theorem Around.order (around : Around state tree node before below after) :
    (tree.insertUnder node.parentId node.id (placeOf state node)).order =
      (before ++ [node.parentId] ++ Forest.orderTake (placeOf state node) below) ++
        node.id :: (Forest.orderDrop (placeOf state node) below ++ after) := by
  rw [around.next]
  simp only [List.append_assoc, List.cons_append, List.nil_append]

theorem Around.earlier (around : Around state tree node before below after) :
    tree.order = (before ++ [node.parentId] ++ Forest.orderTake (placeOf state node) below) ++
      (Forest.orderDrop (placeOf state node) below ++ after) := by
  rw [around.whole, ← Forest.orderTake_append_orderDrop (placeOf state node) below]
  simp only [List.append_assoc, List.cons_append, List.nil_append]

theorem Around.spans (around : Around state tree node before below after)
    (lists : Lists state tree) (outside : node.id ∉ tree.order) :
    state.index.spans =
      spansOf (state.withRun node).nodes
          (before ++ [node.parentId] ++ Forest.orderTake (placeOf state node) below) ++
        spansOf (state.withRun node).nodes
          (Forest.orderDrop (placeOf state node) below ++ after) := by
  rw [← spansOf_append, ← around.earlier, lists.spans]
  exact (spansOf_set_of_notMem outside).symm

theorem Around.follows_withRun (around : Around state tree node before below after)
    (grown : Grown state tree) : below.Follows (state.withRun node).childIds := by
  have nodup := grown.nodup
  rw [around.whole, List.nodup_append, List.nodup_cons] at nodup
  apply around.follows.congr
  intro id inside
  rw [childIds_withRun, if_neg]
  rintro rfl
  exact nodup.2.1.1 (List.mem_append_left _ inside)

theorem Around.length_below (around : Around state tree node before below after)
    (next : Grown (state.withRun node)
      (tree.insertUnder node.parentId node.id (placeOf state node))) :
    below.order.length ≤ (state.withRun node).nodes.keys.length := by
  have bound := next.length_le
  rw [around.order] at bound
  rw [← Forest.orderTake_append_orderDrop (placeOf state node) below]
  simp only [List.length_append, List.length_cons] at bound ⊢
  omega

/-- Below a tombstone the index appends the new span, which is right for a run that is last. -/
theorem Around.findSpanInsertIndex_of_dead (around : Around state tree node before below after)
    (grown : Grown state tree) (lists : Lists state tree)
    (fresh : ¬ (state.nodes.get? node.id).isSome = true) (live : node.deleted = false)
    (last : Trailing state node) {parent : RunNode}
    (found : state.nodes.get? node.parentId = some parent) (dead : parent.deleted = true) :
    (state.withRun node).findSpanInsertIndex node =
      (spansOf (state.withRun node).nodes
        (before ++ [node.parentId] ++ Forest.orderTake (placeOf state node) below)).length := by
  have outside := grown.fresh fresh
  have stored : (state.nodes.get? node.parentId).isSome = true := by
    rw [found]
    rfl
  have next := grown.withRun fresh stored
  have apart : node.parentId ≠ node.id := by
    intro same
    exact outside (same ▸ (grown.stored _).mpr stored)
  rcases grown.root with ⟨root, rootFound, _, rootLive⟩
  have notRoot : node.parentId ≠ rootId := by
    intro same
    rw [same, rootFound] at found
    cases found
    rw [rootLive] at dead
    cases dead
  have idNotRoot : node.id ≠ rootId := by
    intro same
    rw [same, rootFound] at fresh
    exact fresh rfl
  have nothing := spansOf_after_trailing next around.order (by
    rw [shown_of_live next (get?_withRun_self state node) live, if_neg idNotRoot]) last
  have hidden : shown (state.withRun node).nodes node.parentId = none := by
    rw [shown, get?_withRun_of_ne apart, found, Option.filter_some, RunNode.visible, dead]
    rfl
  have spans := around.spans lists outside
  rw [findSpanInsertIndex_of_hidden next.named (spans.trans (spansOf_append _ _ _).symm) notRoot
    hidden]
  change state.index.spans.length = _
  rw [spans, nothing, List.append_nil]

/-- Below a live parent the index skips the parent's span and the subtrees of the siblings that
the new run comes behind. -/
theorem Around.findSpanInsertIndex_of_live (around : Around state tree node before below after)
    (grown : Grown state tree) (lists : Lists state tree)
    (fresh : ¬ (state.nodes.get? node.id).isSome = true) {parent : RunNode}
    (found : state.nodes.get? node.parentId = some parent) (live : parent.deleted = false) :
    (state.withRun node).findSpanInsertIndex node =
      (spansOf (state.withRun node).nodes
        (before ++ [node.parentId] ++ Forest.orderTake (placeOf state node) below)).length := by
  have outside := grown.fresh fresh
  have stored : (state.nodes.get? node.parentId).isSome = true := by
    rw [found]
    rfl
  have next := grown.withRun fresh stored
  have apart : node.parentId ≠ node.id := by
    intro same
    exact outside (same ▸ (grown.stored _).mpr stored)
  have spans := around.spans lists outside
  have spansAround : (state.withRun node).index.spans =
      spansOf (state.withRun node).nodes before ++
        (((shown (state.withRun node).nodes node.parentId).map RunNode.span).toList ++
          (spansOf (state.withRun node).nodes (Forest.orderTake (placeOf state node) below) ++
            spansOf (state.withRun node).nodes
              (Forest.orderDrop (placeOf state node) below ++ after))) := by
    refine spans.trans ?_
    rw [spansOf_append, spansOf_append, spansOf_cons]
    simp only [spansOf, List.filterMap_nil, List.map_nil, List.append_nil, List.append_assoc]
  have start : (state.withRun node).index.spans.drop
      (spansOf (state.withRun node).nodes (before ++ [node.parentId])).length =
        spansOf (state.withRun node).nodes (Forest.orderTake (placeOf state node) below) ++
          spansOf (state.withRun node).nodes
            (Forest.orderDrop (placeOf state node) below ++ after) := by
    change state.index.spans.drop _ = _
    rw [spans, spansOf_append _ (before ++ [node.parentId]), List.append_assoc, List.drop_left]
  have unlisted : node.id ∉ (state.childIds node.parentId).take (placeOf state node) := by
    intro inside
    rw [around.roots] at inside
    apply outside
    rw [around.whole]
    apply List.mem_append_right
    apply List.mem_cons_of_mem
    exact List.mem_append_left _ (Forest.mem_order_of_mem_roots (List.mem_of_mem_take inside))
  have parts := grown.nodup
  rw [around.whole, List.nodup_append, List.nodup_cons, List.nodup_append] at parts
  rw [findSpanInsertIndex_eq next ((get?_withRun_of_ne apart).trans found) live around.next
    spansAround, childIds_withRun, if_pos rfl, take_findIdx_middle unlisted, around.roots,
    skipSubtrees_spec next.named (around.follows_withRun grown) parts.2.1.2.1
      (around.length_below next) start,
    spansOf_append _ (before ++ [node.parentId]), List.length_append]
  intro span member inside
  have later := runId_of_mem_spansOf next.named member
  have nodup := grown.nodup
  rw [around.earlier] at nodup
  exact (List.nodup_append.mp nodup).2.2 _ (List.mem_append_right _ inside) _ later rfl

end Around

theorem findSpanInsertIndex_spec (grown : Grown state tree) (lists : Lists state tree)
    (fresh : ¬ (state.nodes.get? node.id).isSome = true)
    (parent : (state.nodes.get? node.parentId).isSome = true) (live : node.deleted = false)
    (placed : Placed state node) :
    ∃ before after,
      (tree.insertUnder node.parentId node.id (placeOf state node)).order =
        before ++ node.id :: after ∧
      state.index.spans = spansOf (state.withRun node).nodes before ++
        spansOf (state.withRun node).nodes after ∧
      (state.withRun node).findSpanInsertIndex node =
        (spansOf (state.withRun node).nodes before).length := by
  rcases exists_around grown ((grown.stored _).mpr parent) with ⟨before, below, after, around⟩
  refine ⟨_, _, around.order, around.spans lists (grown.fresh fresh), ?_⟩
  rcases Option.isSome_iff_exists.mp parent with ⟨parentNode, found⟩
  cases dead : parentNode.deleted with
  | true =>
      have last : Trailing state node := by
        rcases placed with hidden | ⟨other, held, visible⟩ | last
        · rw [live] at hidden
          cases hidden
        · rw [found] at held
          cases held
          rw [dead] at visible
          cases visible
        · exact last
      exact around.findSpanInsertIndex_of_dead grown lists fresh live last found dead
  | false => exact around.findSpanInsertIndex_of_live grown lists fresh found dead

theorem inserted (grown : Grown state tree) (lists : Lists state tree)
    (parent : (state.nodes.get? node.id).isSome = true ∨ (state.nodes.get? node.parentId).isSome =
      true)
    (placed : (state.nodes.get? node.id).isSome = true ∨ Placed state node) :
    ∃ next, Grown (state.applyInsertRun node) next ∧ Lists (state.applyInsertRun node) next := by
  rw [applyInsertRun]
  split
  · exact ⟨tree, grown, lists⟩
  · next fresh =>
      have parent := parent.resolve_left fresh
      have placed := placed.resolve_left fresh
      have next := grown.withRun fresh parent
      refine ⟨_, next.reindex _, ?_⟩
      dsimp only
      split
      · next dead =>
          have outside := grown.fresh fresh
          rcases Forest.order_insertUnder_middle node.id (placeOf state node) grown.follows
            grown.nodup ((grown.stored _).mpr parent) with ⟨before, after, whole, order⟩
          rw [whole, List.mem_append, not_or] at outside
          constructor
          case spans =>
            change state.index.spans = spansOf (state.nodes.set node.id node) _
            rw [order, spansOf_append, spansOf_cons, spansOf_set_of_notMem outside.1,
              spansOf_set_of_notMem outside.2, shown_set_self, Option.filter_some,
              RunNode.visible, dead, lists.spans, whole, spansOf_append]
            rfl
          case total => exact lists.total
      · next shows =>
          have live : node.deleted = false := Bool.not_eq_true _ ▸ shows
          have idNotRoot : node.id ≠ rootId := by
            intro same
            rcases grown.root with ⟨root, rootFound, _⟩
            rw [same, rootFound] at fresh
            exact fresh rfl
          have visible : shown (state.withRun node).nodes node.id = some node := by
            rw [shown_of_live next (get?_withRun_self state node) live, if_neg idNotRoot]
          rcases findSpanInsertIndex_spec grown lists fresh parent live placed with
            ⟨before, after, order, spans, found⟩
          constructor
          case spans =>
            dsimp only
            rw [found, order, spans, List.take_left, List.drop_left, spansOf_append, spansOf_cons,
              visible]
            rfl
          case total =>
            dsimp only
            rw [found, lists.total, spans, List.take_left, List.drop_left]
            simp only [List.map_append, List.map_cons, List.sum_append, List.sum_cons]
            push_cast
            omega

end Inserting

/-! ## Reducing -/

/-- The maps are a tree and the index lists its visible runs. -/
def Sound (state : DocState) : Prop := ∃ tree, Grown state tree ∧ Lists state tree

/-- An insert names a parent that exists, and the index has a place for the run. -/
def InsertMeets (state : DocState) (node : RunNode) : Prop :=
  (state.nodes.get? node.id).isSome = true ∨
    (state.nodes.get? node.parentId).isSome = true ∧ Placed state node

def RootEmpty (runId : String) (text : List UInt16) : Prop := runId = rootId → text = []

def ActionMeets (state : DocState) : DocAction → Prop
  | .insertRun node => InsertMeets state node
  | .extendRun runId appendText _ => RootEmpty runId appendText
  | .split _ _ => True
  | .deleteRange _ _ _ => True

def FieldMeets (state : DocState) (runId : String) : Option RunNode → Prop
  | none => True
  | some newNode =>
      match state.nodes.get? runId with
      | some existing =>
          if existing.deleted then InsertMeets state newNode
          else 0 < compareHlc existing.hlc newNode.hlc ∨ RootEmpty runId newNode.text
      | none => InsertMeets (state.withPlaceholder newNode) newNode

def FieldsMeet : DocState → List (String × Option RunNode) → Prop
  | _, [] => True
  | state, update :: rest => FieldMeets state update.1 update.2 ∧
      FieldsMeet (state.applyRunFieldUpdate update.1 update.2).1 rest

section Reducing

variable {state : DocState}

theorem sound_createDocState : Sound createDocState := by
  refine ⟨.cons rootId .nil .nil, ?_, ?_⟩
  · constructor
    case top => rfl
    case follows => exact ⟨rfl, trivial, trivial⟩
    case nodup => exact List.nodup_singleton _
    case stored =>
      intro id
      change id ∈ [rootId] ↔ ((OrderedMap.empty.set rootId rootNode).get? id).isSome = true
      rw [List.mem_singleton, OrderedMap.get?_set]
      split
      · next same => exact iff_of_true same rfl
      · next different => exact iff_of_false different Bool.false_ne_true
    case bare =>
      intro id absent
      change ((OrderedMap.empty.set rootId []).get? id).getD [] = []
      rw [OrderedMap.get?_set, if_neg fun same => absent (List.mem_singleton.mpr same)]
      rfl
    case named =>
      intro id node found
      change (OrderedMap.empty.set rootId rootNode).get? id = some node at found
      rw [OrderedMap.get?_set] at found
      split at found
      · next same =>
          cases found
          exact same.symm
      · cases found
    case root => exact ⟨rootNode, rfl, rfl, rfl⟩
  · constructor
    case spans => rfl
    case total => rfl

theorem makeSplitId_ne_root (runId : String) (offset : Int) :
    makeSplitId runId offset ≠ rootId := by
  intro same
  have colon : ':' ∈ (makeSplitId runId offset).toList := by
    rw [makeSplitId, String.toList_append, String.toList_append]
    apply List.mem_append_left
    apply List.mem_append_right
    decide
  rw [same] at colon
  revert colon
  decide

theorem Sound.split (sound : Sound state) (runId : String) (offset : Int) :
    Sound (state.applySplit runId offset) := by
  rcases sound with ⟨tree, grown, lists⟩
  exact splitApart grown lists runId offset

theorem Sound.tombstone (sound : Sound state) {runId : String} (other : runId ≠ rootId) :
    Sound (state.tombstoneRun runId) := by
  rcases sound with ⟨tree, grown, lists⟩
  exact ⟨tree, tombstoned grown lists other⟩

theorem Sound.insert (sound : Sound state) {node : RunNode} (meets : InsertMeets state node) :
    Sound (state.applyInsertRun node) := by
  rcases sound with ⟨tree, grown, lists⟩
  exact inserted grown lists (meets.imp id And.left) (meets.imp id And.right)

theorem Sound.deleteRange (sound : Sound state) (runId : String) (offset count : Int) :
    Sound (state.applyDeleteRange runId offset count) := by
  rw [applyDeleteRange]
  split
  · exact sound
  · next node found =>
      split
      · exact sound
      · dsimp only
        split
        · exact sound
        · next valid =>
            have other : runId ≠ rootId := by
              rintro rfl
              rcases sound with ⟨tree, grown, _⟩
              rcases grown.root with ⟨root, rootFound, empty, _⟩
              rw [rootFound] at found
              cases found
              rw [empty] at valid
              simp only [List.length_nil] at valid
              omega
            split
            · exact sound.tombstone other
            · split
              · exact (sound.split runId count).tombstone other
              · split
                · exact (sound.split runId offset).tombstone (makeSplitId_ne_root runId offset)
                · exact ((sound.split runId offset).split _ count).tombstone
                    (makeSplitId_ne_root runId offset)

theorem Sound.reduce (sound : Sound state) {action : DocAction} (meets : ActionMeets state action) :
    Sound (state.docReducer action) := by
  cases action with
  | insertRun node => exact sound.insert meets
  | deleteRange runId offset count => exact sound.deleteRange runId offset count
  | split runId offset => exact sound.split runId offset
  | extendRun runId appendText hlc =>
      rcases sound with ⟨tree, grown, lists⟩
      exact ⟨tree, extended grown lists meets hlc⟩

theorem Sound.withPlaceholder (sound : Sound state) (node : RunNode) :
    Sound (state.withPlaceholder node) := by
  rw [DocState.withPlaceholder]
  split
  · apply sound.insert
    right
    rcases sound with ⟨tree, grown, _⟩
    rcases grown.root with ⟨root, found, _⟩
    exact ⟨by dsimp only; rw [found]; rfl, .inl rfl⟩
  · exact sound

theorem applyDeleteRange_whole {runId : String} {node : RunNode}
    (found : state.nodes.get? runId = some node) (live : node.deleted = false) :
    state.applyDeleteRange runId 0 node.text.length =
      if node.text = [] then state else state.tombstoneRun runId := by
  rw [applyDeleteRange, found]
  dsimp only
  rw [live, if_neg Bool.false_ne_true]
  by_cases empty : node.text = []
  · rw [if_pos empty, empty, if_pos (.inr (.inl (Int.le_refl 0)))]
  · have size : 0 < node.text.length := List.length_pos_iff.mpr empty
    rw [if_neg empty, if_neg (by omega), if_pos ⟨rfl, rfl⟩]

theorem applyRunFieldUpdate_cases (state : DocState) (runId : String) (field : Option RunNode) :
    state.applyRunFieldUpdate runId field = (state, []) ∨
      (∃ node : RunNode, state.nodes.get? runId = some node ∧ node.deleted = false ∧
        state.applyRunFieldUpdate runId field =
          (if node.text = [] then state else state.tombstoneRun runId,
            [.deleteRange runId 0 node.text.length])) ∨
      (∃ newNode : RunNode, (FieldMeets state runId field → RootEmpty runId newNode.text) ∧
        state.applyRunFieldUpdate runId field =
          (state.applySetRun runId newNode, [.extendRun runId newNode.text newNode.hlc])) ∨
      ∃ (newNode : RunNode) (base : DocState),
        (base = state ∨ base = state.withPlaceholder newNode) ∧
          (FieldMeets state runId field → InsertMeets base newNode) ∧
          state.applyRunFieldUpdate runId field =
            (base.applyInsertRun newNode, [.insertRun newNode]) := by
  cases field with
  | none =>
      rw [applyRunFieldUpdate]
      split
      · exact .inl rfl
      · next node found =>
          split
          · exact .inl rfl
          · next live =>
              have live : node.deleted = false := Bool.not_eq_true _ ▸ live
              dsimp only [docReducer]
              rw [applyDeleteRange_whole found live]
              exact .inr (.inl ⟨node, found, live, rfl⟩)
  | some newNode =>
      rw [applyRunFieldUpdate, FieldMeets]
      cases found : state.nodes.get? runId with
      | none => exact .inr (.inr (.inr ⟨newNode, _, .inr rfl, id, rfl⟩))
      | some existing =>
          dsimp only
          by_cases dead : existing.deleted = true
          · rw [if_pos dead, if_pos dead]
            exact .inr (.inr (.inr ⟨newNode, _, .inl rfl, id, rfl⟩))
          · rw [if_neg dead, if_neg dead]
            split
            · exact .inl rfl
            · split
              · exact .inl rfl
              · next newer =>
                  exact .inr (.inr (.inl ⟨newNode, fun meets => meets.resolve_left newer, rfl⟩))

theorem Sound.fieldUpdate (sound : Sound state) {runId : String} {field : Option RunNode}
    (meets : FieldMeets state runId field) : Sound (state.applyRunFieldUpdate runId field).1 := by
  rcases applyRunFieldUpdate_cases state runId field with
    kept | ⟨node, found, live, deletes⟩ | ⟨newNode, root, replaces⟩ | ⟨newNode, base, start, place, inserts⟩
  · rw [kept]
    exact sound
  · rw [deletes, ← applyDeleteRange_whole found live]
    exact sound.deleteRange runId 0 _
  · rw [replaces]
    rcases sound with ⟨tree, grown, lists⟩
    exact ⟨tree, replaced grown lists (root meets)⟩
  · rw [inserts]
    rcases start with rfl | rfl
    · exact sound.insert (place meets)
    · exact (sound.withPlaceholder newNode).insert (place meets)

theorem Sound.fieldUpdates (sound : Sound state) {updates : List (String × Option RunNode)}
    (meets : FieldsMeet state updates) : Sound (state.applyRunFieldUpdates updates).1 := by
  have general : ∀ (updates : List (String × Option RunNode)) (result : DocState × List DocAction),
      Sound result.1 → FieldsMeet result.1 updates →
        Sound (updates.foldl (fun result update =>
          let next := result.1.applyRunFieldUpdate update.1 update.2
          (next.1, result.2 ++ next.2)) result).1 := by
    intro updates
    induction updates with
    | nil => exact fun _ sound _ => sound
    | cons update rest induction =>
        intro result sound meets
        exact induction _ (sound.fieldUpdate meets.1) meets.2
  exact general updates (state, []) sound meets

end Reducing

/-! ## Runs -/

/-- The index lists the visible runs in document order, its length is the text's, and a
position leads to the code unit it has in the text. -/
structure Indexed (state : DocState) : Prop where
  spans : state.index.spans = state.visibleRuns.map RunNode.span
  total : state.index.totalLength = state.reconstruct.length
  lookup : ∀ position : Nat, (position : Int) < state.index.totalLength →
    ∃ lookup node, state.index.lookupPosition position = some lookup ∧
      state.nodes.get? lookup.runId = some node ∧ node.visible = true ∧
      lookup.offset < node.text.length ∧
      node.text[lookup.offset]? = state.reconstruct[position]?

theorem Rooted.indexed {state : DocState} {tree : Forest String} (rooted : Rooted state tree)
    (spans : state.index.spans = state.visibleRuns.map RunNode.span)
    (total : state.index.totalLength = state.reconstruct.length) : Indexed state := by
  constructor
  case spans => exact spans
  case total => exact total
  case lookup =>
    intro position inside
    have within : position < (state.visibleRuns.flatMap RunNode.text).length := by
      rw [total] at inside
      exact Int.ofNat_lt.mp inside
    rcases lookupFrom_spec 0 0 within with ⟨lookup, node, found, member, named, bound, same⟩
    rw [rooted.visibleRuns] at member
    rcases List.mem_filterMap.mp member with ⟨id, _, shows⟩
    rcases shown_eq_some.mp shows with ⟨held, visible⟩
    refine ⟨lookup, node, ?_, ?_, visible, bound, same⟩
    · rw [PositionIndex.lookupPosition, if_neg (by omega), spans, ← found, Int.toNat_natCast,
        Nat.zero_add]
    · rw [← named, rooted.named id node held]
      exact held

theorem Sound.indexed {state : DocState} (sound : Sound state) : Indexed state := by
  rcases sound with ⟨tree, grown, lists⟩
  have spans : state.index.spans = state.visibleRuns.map RunNode.span := by
    rw [grown.visibleRuns]
    exact lists.spans
  apply grown.rooted.indexed spans
  rw [lists.total, spans, reconstruct, List.length_flatMap, List.map_map]
  rfl

inductive Edit where
  | reduce (action : DocAction)
  | fields (updates : List (String × Option RunNode))

def edit (state : DocState) : Edit → DocState
  | .reduce action => state.docReducer action
  | .fields updates => (state.applyRunFieldUpdates updates).1

def machine : Machine DocState Edit where
  initial := createDocState
  step := fun state change => some (state.edit change)

/-- Every insert names a parent that exists and has a place in the index, and the root
gets no text. -/
def EditMeets (state : DocState) : Edit → Prop
  | .reduce action => ActionMeets state action
  | .fields updates => FieldsMeet state updates

theorem indexed_of_run {edits : List Edit} {final : DocState}
    (meets : machine.Meets EditMeets createDocState edits)
    (reached : machine.run createDocState edits = some final) : Indexed final := by
  have preserved : ∀ (state : DocState) change next, Sound state → EditMeets state change →
      machine.step state change = some next → Sound next := by
    intro state change next sound meets stepped
    cases stepped
    cases change with
    | reduce action => exact sound.reduce meets
    | fields updates => exact sound.fieldUpdates meets
  exact (Machine.run_preserves preserved sound_createDocState meets reached).indexed

/-! ### Short documents -/

def run (id : String) (hlc : HLCTimestamp) (text : List UInt16) (parentId : String) : RunNode where
  id := id
  hlc := hlc
  actorId := "usr_1"
  text := text
  parentId := parentId
  deleted := false

def twoRuns : List Edit :=
  [.reduce (.insertRun (run "2:usr_1" 2 [97, 98] rootId)),
    .reduce (.insertRun (run "1:usr_1" 1 [99] rootId)), .reduce (.deleteRange "2:usr_1" 0 1)]

theorem indexed_twoRuns : Indexed (twoRuns.foldl edit createDocState) := by
  apply @indexed_of_run twoRuns
  case reached => rfl
  case meets =>
    refine ⟨.inr ⟨rfl, .inr (.inl ⟨rootNode, rfl, rfl⟩)⟩, fun first stepped => ?_⟩
    cases stepped
    refine ⟨.inr ⟨rfl, .inr (.inl ⟨rootNode, rfl, rfl⟩)⟩, fun second stepped => ?_⟩
    cases stepped
    exact ⟨trivial, fun _ _ => trivial⟩

/-- The inserts of an edit name parents that exist. -/
def NamesParents (state : DocState) : Edit → Prop
  | .reduce (.insertRun node) => (state.nodes.get? node.parentId).isSome = true
  | .reduce _ => True
  | .fields updates => ∀ update ∈ updates, ∀ node ∈ update.2,
      (state.nodes.get? node.parentId).isSome = true

def belowTombstone : List Edit :=
  [.reduce (.insertRun (run "2:usr_1" 2 [97] rootId)),
    .reduce (.insertRun (run "1:usr_1" 1 [99] rootId)), .reduce (.deleteRange "2:usr_1" 0 1),
    .reduce (.insertRun (run "3:usr_1" 3 [98] "2:usr_1"))]

/-- The span of a run below a tombstone goes to the end, wherever the run is. -/
theorem belowTombstone_misplaced :
    machine.Meets NamesParents createDocState belowTombstone ∧
      ¬ ∀ final, machine.run createDocState belowTombstone = some final → Indexed final := by
  constructor
  case left =>
    refine ⟨rfl, fun first stepped => ?_⟩
    cases stepped
    refine ⟨rfl, fun second stepped => ?_⟩
    cases stepped
    refine ⟨trivial, fun third stepped => ?_⟩
    cases stepped
    exact ⟨rfl, fun _ _ => trivial⟩
  case right =>
    intro indexed
    have spans := (indexed _ rfl).spans
    revert spans
    decide

end DocState

end Ebb.Text
