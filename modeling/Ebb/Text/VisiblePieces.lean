import Ebb.Foundation.PieceTable
import Ebb.Text.DocumentOrder

namespace Ebb.Text

/-! The visible runs of a document as a table of pieces, and what each action of the reducer
makes of the table. -/

namespace DocState

def pieces (state : DocState) : PieceTable String UInt16 :=
  state.visibleRuns.map fun node => (node.id, node.text)

theorem text_pieces (state : DocState) : PieceTable.text state.pieces = state.reconstruct := by
  rw [PieceTable.text, pieces, List.flatMap_map]
  rfl

/-- The piece of a run, if a reader sees it. -/
def pieceOf (nodes : OrderedMap String RunNode) (id : String) : Option (String × List UInt16) :=
  (shown nodes id).map fun node => (id, node.text)

section Pieces

variable {state other : DocState} {tree : Forest String}

theorem Rooted.pieces_eq (rooted : Rooted state tree) :
    state.pieces = tree.order.filterMap (pieceOf state.nodes) := by
  rw [pieces, rooted.visibleRuns, List.map_filterMap]
  apply List.filterMap_congr
  intro id _
  rw [pieceOf]
  cases visible : shown state.nodes id with
  | none => rfl
  | some node =>
      rw [Option.map_some, Option.map_some, rooted.named id node (shown_eq_some.mp visible).1]

theorem pieceOf_live {nodes : OrderedMap String RunNode} {id : String} {node : RunNode}
    (named : node.id = id) (found : nodes.get? id = some node) (live : node.deleted = false)
    (notRoot : id ≠ rootId) : pieceOf nodes id = some (id, node.text) := by
  rw [pieceOf, shown_named named found live, if_neg notRoot]
  rfl

variable {nodes : OrderedMap String RunNode}

theorem pieceOf_deleted {id : String} {node : RunNode} (found : nodes.get? id = some node)
    (deleted : node.deleted = true) :
    pieceOf nodes id = none := by
  rw [pieceOf, shown, found, Option.filter_some, RunNode.visible, deleted]
  rfl

theorem pieceOf_eq_some {id key : String} {text : List UInt16}
    (piece : pieceOf nodes id = some (key, text)) :
    id = key ∧ ∃ node, shown nodes id = some node ∧ node.text = text := by
  rcases Option.map_eq_some_iff.mp piece with ⟨node, visible, same⟩
  cases same
  exact ⟨rfl, node, visible, rfl⟩

theorem Rooted.nodup_pieces (rooted : Rooted state tree) :
    (PieceTable.keys state.pieces).Nodup := by
  have keys : ∀ ids : List String, PieceTable.keys (ids.filterMap (pieceOf state.nodes)) =
      ids.filter fun id => (shown state.nodes id).isSome := by
    intro ids
    induction ids with
    | nil => rfl
    | cons id rest induction =>
        rw [List.filterMap_cons, List.filter_cons, ← induction, pieceOf]
        cases shown state.nodes id with
        | none => rfl
        | some node => rfl
  rw [rooted.pieces_eq, keys]
  exact rooted.nodup.filter _

theorem Rooted.node_of_mem_pieces (rooted : Rooted state tree) {id : String} {text : List UInt16}
    (member : (id, text) ∈ state.pieces) :
    id ≠ rootId ∧ ∃ node, state.nodes.get? id = some node ∧ node.deleted = false ∧
      node.text = text := by
  rw [rooted.pieces_eq] at member
  rcases List.mem_filterMap.mp member with ⟨other, _, piece⟩
  rcases pieceOf_eq_some piece with ⟨rfl, node, visible, same⟩
  rcases shown_eq_some.mp visible with ⟨found, seen⟩
  rw [RunNode.visible, Bool.and_eq_true, Bool.not_eq_true', rooted.named other node found] at seen
  exact ⟨bne_iff_ne.mp seen.2, node, found, seen.1, same⟩

theorem Grown.mem_pieces (grown : Grown state tree) {id : String} {node : RunNode}
    (found : state.nodes.get? id = some node) (live : node.deleted = false)
    (notRoot : id ≠ rootId) : (id, node.text) ∈ state.pieces := by
  rw [grown.rooted.pieces_eq]
  have member : id ∈ tree.order := (grown.stored id).mpr (by rw [found]; rfl)
  exact List.mem_filterMap.mpr
    ⟨id, member, pieceOf_live (grown.named id node found) found live notRoot⟩

theorem Sound.spans_pieces (sound : Sound state) :
    state.index.spans = state.pieces.map fun piece => {
      runId := piece.1
      length := piece.2.length } := by
  rw [sound.indexed.spans, pieces, List.map_map]
  rfl

theorem Rooted.mem_order_of_piece (rooted : Rooted state tree) {id : String} {text : List UInt16}
    (member : (id, text) ∈ state.pieces) : id ∈ tree.order := by
  rw [rooted.pieces_eq] at member
  rcases List.mem_filterMap.mp member with ⟨other, inside, piece⟩
  rcases pieceOf_eq_some piece with ⟨rfl, _⟩
  exact inside

theorem Rooted.pieces_around (rooted : Rooted state tree) {before after : PieceTable String UInt16}
    {first second : List String} {id : String} {text : List UInt16}
    (order : tree.order = first ++ id :: second)
    (whole : state.pieces = before ++ (id, text) :: after) :
    first.filterMap (pieceOf state.nodes) = before ∧
      second.filterMap (pieceOf state.nodes) = after := by
  have member : (id, text) ∈ state.pieces := by
    rw [whole]
    exact List.mem_append_right _ List.mem_cons_self
  rcases rooted.node_of_mem_pieces member with ⟨notRoot, node, found, live, rfl⟩
  have along : state.pieces = first.filterMap (pieceOf state.nodes) ++
      (id, node.text) :: second.filterMap (pieceOf state.nodes) := by
    rw [rooted.pieces_eq, order, List.filterMap_append, List.filterMap_cons,
      pieceOf_live (rooted.named id node found) found live notRoot]
  rcases PieceTable.split_unique rooted.nodup_pieces along whole with ⟨same, _, later⟩
  exact ⟨same, later⟩

theorem filterMap_pieceOf_congr {ids : List String}
    (same : ∀ id ∈ ids, pieceOf other.nodes id = pieceOf state.nodes id) :
    ids.filterMap (pieceOf other.nodes) = ids.filterMap (pieceOf state.nodes) :=
  List.filterMap_congr same

theorem Rooted.pieces_write (rooted : Rooted state tree) (next : Rooted other tree)
    {before after : PieceTable String UInt16} {runId : String} {text : List UInt16}
    (whole : state.pieces = before ++ (runId, text) :: after)
    (elsewhere : ∀ id, id ≠ runId → other.nodes.get? id = state.nodes.get? id) :
    other.pieces = before ++ ((pieceOf other.nodes runId).toList ++ after) := by
  have member : (runId, text) ∈ state.pieces := by
    rw [whole]
    exact List.mem_append_right _ List.mem_cons_self
  rcases List.append_of_mem (rooted.mem_order_of_piece member) with ⟨first, second, order⟩
  rcases rooted.pieces_around order whole with ⟨rfl, rfl⟩
  have nodup := rooted.nodup
  rw [order, List.nodup_append, List.nodup_cons] at nodup
  have same : ∀ id, id ≠ runId → pieceOf other.nodes id = pieceOf state.nodes id := by
    intro id apart
    rw [pieceOf, pieceOf, shown, shown, elsewhere id apart]
  rw [next.pieces_eq, order, List.filterMap_append, List.filterMap_cons,
    filterMap_pieceOf_congr fun id member => same id fun equal =>
      nodup.2.2 id member runId List.mem_cons_self equal,
    filterMap_pieceOf_congr fun id member => same id fun equal => nodup.2.1.1 (equal ▸ member)]
  cases pieceOf other.nodes runId with
  | none => rfl
  | some piece => rfl

end Pieces

/-! ## Tombstones and extensions -/

section Writing

variable {state : DocState} {before after : PieceTable String UInt16} {runId : String}
  {text : List UInt16}

theorem nodes_tombstoneRun {node : RunNode} (found : state.nodes.get? runId = some node)
    (live : node.deleted = false) :
    (state.tombstoneRun runId).nodes = state.nodes.set runId { node with deleted := true } := by
  rw [tombstoneRun, found]
  dsimp only
  rw [live, if_neg Bool.false_ne_true]

theorem Rooted.tombstone {tree : Forest String} (rooted : Rooted state tree) (runId : String) :
    Rooted (state.tombstoneRun runId) tree := by
  rw [tombstoneRun]
  split
  · exact rooted
  · next node found =>
      split
      · exact rooted
      · have present : (state.nodes.get? runId).isSome = true := by rw [found]; rfl
        exact @Rooted.set _ _ rooted runId { node with deleted := true } present
          (rooted.named runId node found) _

theorem Rooted.pieces_tombstoneRun {tree : Forest String} (rooted : Rooted state tree)
    (whole : state.pieces = before ++ (runId, text) :: after) :
    (state.tombstoneRun runId).pieces = before ++ after := by
  have member : (runId, text) ∈ state.pieces := by
    rw [whole]
    exact List.mem_append_right _ List.mem_cons_self
  rcases rooted.node_of_mem_pieces member with ⟨notRoot, node, found, live, _⟩
  have written := nodes_tombstoneRun found live
  have gone : pieceOf (state.tombstoneRun runId).nodes runId = none :=
    pieceOf_deleted (by rw [written, OrderedMap.get?_set_self]) rfl
  rw [rooted.pieces_write (rooted.tombstone runId) whole, gone]
  · rfl
  · intro id apart
    rw [written, OrderedMap.get?_set_of_ne _ apart]

theorem pieces_applyExtendRun (sound : Sound state)
    (whole : state.pieces = before ++ (runId, text) :: after) (appendText : List UInt16)
    (hlc : HLCTimestamp) :
    (state.applyExtendRun runId appendText hlc).pieces =
      before ++ (runId, text ++ appendText) :: after := by
  rcases sound with ⟨tree, grown, lists⟩
  have member : (runId, text) ∈ state.pieces := by
    rw [whole]
    exact List.mem_append_right _ List.mem_cons_self
  rcases grown.rooted.node_of_mem_pieces member with ⟨notRoot, node, found, live, rfl⟩
  have next := (@extended state tree grown lists runId appendText
    (fun same => absurd same notRoot) hlc).1
  have written : (state.applyExtendRun runId appendText hlc).nodes =
      state.nodes.set runId { node with text := node.text ++ appendText, hlc } := by
    rw [applyExtendRun, found]
    dsimp only
    rw [live, if_neg Bool.false_ne_true]
  have grownPiece : pieceOf (state.applyExtendRun runId appendText hlc).nodes runId =
      some (runId, node.text ++ appendText) := by
    apply @pieceOf_live _ _ { node with text := node.text ++ appendText, hlc }
      (grown.named runId node found) _ live notRoot
    rw [written, OrderedMap.get?_set_self]
  rw [grown.rooted.pieces_write next.rooted whole, grownPiece]
  · rfl
  · intro id apart
    rw [written, OrderedMap.get?_set_of_ne _ apart]

end Writing

/-! ## Splits -/

section Splitting

variable {state : DocState} {tree : Forest String} {runId : String} {node : RunNode} {offset : Int}

def leftHalf (node : RunNode) (offset : Int) : RunNode :=
  { node with text := node.text.take offset.toNat }

def rightHalf (node : RunNode) (runId : String) (offset : Int) : RunNode :=
  { node with
    id := makeSplitId runId offset
    text := node.text.drop offset.toNat
    parentId := runId }

theorem applySplit_spec (found : state.nodes.get? runId = some node) (positive : 0 < offset)
    (inside : offset < node.text.length)
    (fresh : state.nodes.get? (makeSplitId runId offset) = none) :
    SameRuns ((state.nodes.set runId (leftHalf node offset)).set (makeSplitId runId offset)
        (rightHalf node runId offset)) (state.applySplit runId offset).nodes ∧
      (state.applySplit runId offset).children =
        (state.children.set (makeSplitId runId offset) (state.childIds runId)).set runId
          [makeSplitId runId offset] := by
  have same := sameRuns_foldl (makeSplitId runId offset) (state.childIds runId)
    ((state.nodes.set runId (leftHalf node offset)).set (makeSplitId runId offset)
      (rightHalf node runId offset))
  rw [applySplit, found]
  dsimp only
  rw [if_neg (by omega), if_neg (by rw [fresh]; exact Bool.false_ne_true)]
  split
  · exact ⟨same, rfl⟩
  · split
    · exact ⟨same, rfl⟩
    · exact ⟨same, rfl⟩

theorem makeSplitId_ne_self (runId : String) (offset : Int) : makeSplitId runId offset ≠ runId := by
  intro same
  have length := congrArg String.length same
  rw [makeSplitId, String.length_append, String.length_append] at length
  have positive : splitSeparator.length = 3 := rfl
  omega

theorem makeSplitId_twice_ne_self (runId : String) (first second : Int) :
    makeSplitId (makeSplitId runId first) second ≠ runId := by
  intro same
  have length := congrArg String.length same
  rw [makeSplitId, makeSplitId, String.length_append, String.length_append, String.length_append,
    String.length_append] at length
  have positive : splitSeparator.length = 3 := rfl
  omega

theorem nodes_applySplit_of_ne {id : String}
    (found : state.nodes.get? runId = some node) (positive : 0 < offset)
    (inside : offset < node.text.length)
    (fresh : state.nodes.get? (makeSplitId runId offset) = none) (apart : id ≠ runId)
    (other : id ≠ makeSplitId runId offset) :
    ((state.applySplit runId offset).nodes.get? id).isSome = (state.nodes.get? id).isSome := by
  rw [(applySplit_spec found positive inside fresh).1.isSome, OrderedMap.get?_set_of_ne _ other,
    OrderedMap.get?_set_of_ne _ apart]

theorem childIds_applySplit (found : state.nodes.get? runId = some node) (positive : 0 < offset)
    (inside : offset < node.text.length)
    (fresh : state.nodes.get? (makeSplitId runId offset) = none) :
    (state.applySplit runId offset).childIds runId = [makeSplitId runId offset] := by
  rw [childIds, (applySplit_spec found positive inside fresh).2, OrderedMap.get?_set_self]
  rfl

theorem SameRuns.pieceOf {nodes others : OrderedMap String RunNode} (same : SameRuns nodes others)
    (id : String) : DocState.pieceOf others id = DocState.pieceOf nodes id := by
  rw [DocState.pieceOf, DocState.pieceOf, shown, shown]
  cases found : others.get? id with
  | none =>
      have here := same id
      rw [found] at here
      rw [Option.map_eq_none_iff.mp here.symm]
  | some node =>
      rcases same.node found with ⟨parentId, held⟩
      rw [held, Option.filter_some, Option.filter_some]
      change _ = Option.map _ (if node.visible = true then _ else _)
      split
      · rfl
      · rfl

theorem Rooted.split (rooted : Rooted state tree) (found : state.nodes.get? runId = some node)
    (member : runId ∈ tree.order) (positive : 0 < offset) (inside : offset < node.text.length)
    (fresh : state.nodes.get? (makeSplitId runId offset) = none) :
    Rooted (state.applySplit runId offset) (tree.interpose runId (makeSplitId runId offset)) := by
  rcases applySplit_spec found positive inside fresh with ⟨same, children⟩
  have halved := @Rooted.halved state tree rooted runId (makeSplitId runId offset)
    (leftHalf node offset) (rightHalf node runId offset) member
    (by rw [fresh]; exact Bool.false_ne_true) (rooted.named runId node found) rfl
    (state.applySplit runId offset).index
  rw [← children] at halved
  exact halved.rewrite same.isSome (same.named halved.named) _

theorem Rooted.pieces_split (rooted : Rooted state tree)
    (found : state.nodes.get? runId = some node) (member : runId ∈ tree.order)
    (positive : 0 < offset) (inside : offset < node.text.length)
    (fresh : state.nodes.get? (makeSplitId runId offset) = none) :
    ∃ first second, tree.order = first ++ runId :: second ∧
      (state.applySplit runId offset).pieces = first.filterMap (pieceOf state.nodes) ++
        ((pieceOf (state.applySplit runId offset).nodes runId).toList ++
          ((pieceOf (state.applySplit runId offset).nodes (makeSplitId runId offset)).toList ++
            second.filterMap (pieceOf state.nodes))) := by
  have next := rooted.split found member positive inside fresh
  have same := (applySplit_spec found positive inside fresh).1
  rcases Forest.order_interpose (makeSplitId runId offset) rooted.nodup member with
    ⟨first, second, order, nextOrder⟩
  have nodup := rooted.nodup
  have outside := rooted.fresh (by rw [fresh]; exact Bool.false_ne_true)
  rw [order, List.mem_append, List.mem_cons, not_or, not_or] at outside
  rw [order, List.nodup_append, List.nodup_cons] at nodup
  have kept : ∀ ids : List String, runId ∉ ids → makeSplitId runId offset ∉ ids →
      ids.filterMap (pieceOf (state.applySplit runId offset).nodes) =
        ids.filterMap (pieceOf state.nodes) := by
    intro ids noLeft noRight
    apply filterMap_pieceOf_congr
    intro id listed
    rw [same.pieceOf, pieceOf, pieceOf, shown, shown, OrderedMap.get?_set_of_ne _ ?_,
      OrderedMap.get?_set_of_ne _ ?_]
    · rintro rfl
      exact noLeft listed
    · rintro rfl
      exact noRight listed
  refine ⟨first, second, order, ?_⟩
  rw [next.pieces_eq, nextOrder, List.filterMap_append, List.filterMap_cons, List.filterMap_cons,
    kept first (fun member => nodup.2.2 runId member runId List.mem_cons_self rfl) outside.1,
    kept second nodup.2.1.1 outside.2.2]
  cases pieceOf (state.applySplit runId offset).nodes runId with
  | none =>
      cases pieceOf (state.applySplit runId offset).nodes (makeSplitId runId offset) with
      | none => rfl
      | some _ => rfl
  | some _ =>
      cases pieceOf (state.applySplit runId offset).nodes (makeSplitId runId offset) with
      | none => rfl
      | some _ => rfl

theorem pieceOf_halves (named : node.id = runId) (found : state.nodes.get? runId = some node)
    (notRoot : node.deleted = false → runId ≠ rootId) (positive : 0 < offset)
      (inside : offset < node.text.length)
    (fresh : state.nodes.get? (makeSplitId runId offset) = none) :
    pieceOf (state.applySplit runId offset).nodes runId =
        (if node.deleted then none else some (runId, node.text.take offset.toNat)) ∧
      pieceOf (state.applySplit runId offset).nodes (makeSplitId runId offset) =
        if node.deleted then none
        else some (makeSplitId runId offset, node.text.drop offset.toNat) := by
  have same := (applySplit_spec found positive inside fresh).1
  have left : (((state.nodes.set runId (leftHalf node offset)).set (makeSplitId runId offset)
      (rightHalf node runId offset)).get? runId) = some (leftHalf node offset) := by
    rw [OrderedMap.get?_set_of_ne _ (Ne.symm (makeSplitId_ne_self runId offset)),
      OrderedMap.get?_set_self]
  have right : (((state.nodes.set runId (leftHalf node offset)).set (makeSplitId runId offset)
      (rightHalf node runId offset)).get? (makeSplitId runId offset)) =
        some (rightHalf node runId offset) := OrderedMap.get?_set_self _ _ _
  rw [same.pieceOf, same.pieceOf]
  cases dead : node.deleted with
  | true => exact ⟨pieceOf_deleted left dead, pieceOf_deleted right dead⟩
  | false => exact ⟨@pieceOf_live _ _ (leftHalf node offset) named left dead (notRoot dead),
      @pieceOf_live _ _ (rightHalf node runId offset) rfl right dead
        (makeSplitId_ne_root runId offset)⟩

theorem Rooted.pieces_applySplit (rooted : Rooted state tree)
    {before after : PieceTable String UInt16} {text : List UInt16}
    (whole : state.pieces = before ++ (runId, text) :: after) (positive : 0 < offset)
    (inside : offset < text.length)
    (fresh : state.nodes.get? (makeSplitId runId offset) = none) :
    (state.applySplit runId offset).pieces = before ++ (runId, text.take offset.toNat) ::
      (makeSplitId runId offset, text.drop offset.toNat) :: after := by
  have member : (runId, text) ∈ state.pieces := by
    rw [whole]
    exact List.mem_append_right _ List.mem_cons_self
  rcases rooted.node_of_mem_pieces member with ⟨notRoot, node, found, live, rfl⟩
  rcases rooted.pieces_split found (rooted.mem_order_of_piece member) positive inside fresh with
    ⟨first, second, order, split⟩
  rcases rooted.pieces_around order whole with ⟨rfl, rfl⟩
  rcases pieceOf_halves (rooted.named runId node found) found (fun _ => notRoot) positive inside
    fresh with ⟨left, right⟩
  rw [split, left, right, live]
  rfl

theorem Rooted.split_outside (rooted : Rooted state tree)
    (found : state.nodes.get? runId = some node) (outside : runId ∉ tree.order)
    (positive : 0 < offset) (inside : offset < node.text.length)
    (fresh : state.nodes.get? (makeSplitId runId offset) = none) :
    Rooted (state.applySplit runId offset) tree := by
  rcases applySplit_spec found positive inside fresh with ⟨same, children⟩
  have absent := rooted.fresh (by rw [fresh]; exact Bool.false_ne_true)
  have elsewhere : ∀ id ∈ tree.order, id ≠ runId ∧ id ≠ makeSplitId runId offset := by
    intro id inTree
    constructor
    · rintro rfl
      exact outside inTree
    · rintro rfl
      exact absent inTree
  constructor
  case top => exact rooted.top
  case follows =>
    apply rooted.follows.congr
    intro id inTree
    rw [childIds, children, OrderedMap.get?_set_of_ne _ (elsewhere id inTree).1,
      OrderedMap.get?_set_of_ne _ (elsewhere id inTree).2]
    rfl
  case nodup => exact rooted.nodup
  case stored =>
    intro id inTree
    rw [nodes_applySplit_of_ne found positive inside fresh (elsewhere id inTree).1
      (elsewhere id inTree).2]
    exact rooted.stored id inTree
  case named =>
    exact same.named (@named_set _ _ (rightHalf node runId offset)
      (@named_set _ _ (leftHalf node offset) rooted.named (rooted.named runId node found)) rfl)

theorem applySplit_cases (state : DocState) (runId : String) (offset : Int) :
    state.applySplit runId offset = state ∨ ∃ node, state.nodes.get? runId = some node ∧
      0 < offset ∧ offset < node.text.length ∧
        state.nodes.get? (makeSplitId runId offset) = none := by
  cases found : state.nodes.get? runId with
  | none =>
      left
      rw [applySplit, found]
  | some node =>
      by_cases outside : offset ≤ 0 ∨ (node.text.length : Int) ≤ offset
      · left
        rw [applySplit, found]
        exact if_pos outside
      · cases taken : state.nodes.get? (makeSplitId runId offset) with
        | none => exact .inr ⟨node, rfl, by omega, by omega, rfl⟩
        | some other =>
            left
            rw [applySplit, found]
            dsimp only
            rw [if_neg outside, taken]
            rfl

theorem Rooted.exists_split (rooted : Rooted state tree) (runId : String) (offset : Int) :
    ∃ next, Rooted (state.applySplit runId offset) next := by
  rcases applySplit_cases state runId offset with
    unchanged | ⟨node, found, positive, inside, fresh⟩
  · rw [unchanged]
    exact ⟨tree, rooted⟩
  · by_cases member : runId ∈ tree.order
    · exact ⟨_, rooted.split found member positive inside fresh⟩
    · exact ⟨tree, rooted.split_outside found member positive inside fresh⟩

theorem Rooted.pieces_applySplit_hidden (rooted : Rooted state tree)
    (found : state.nodes.get? runId = some node)
    (notRoot : node.deleted = false → runId ≠ rootId)
    (hidden : runId ∉ PieceTable.keys state.pieces) (positive : 0 < offset)
    (inside : offset < node.text.length)
    (fresh : state.nodes.get? (makeSplitId runId offset) = none) :
    (state.applySplit runId offset).pieces = state.pieces := by
  by_cases member : runId ∈ tree.order
  · have dead : node.deleted = true := by
      cases live : node.deleted with
      | true => rfl
      | false =>
          have piece : (runId, node.text) ∈ state.pieces := by
            rw [rooted.pieces_eq]
            exact List.mem_filterMap.mpr
              ⟨runId, member, pieceOf_live (rooted.named runId node found) found live (notRoot live)⟩
          exact absurd (PieceTable.mem_keys piece) hidden
    rcases rooted.pieces_split found member positive inside fresh with
      ⟨first, second, order, split⟩
    rcases pieceOf_halves (rooted.named runId node found) found notRoot positive inside fresh with
      ⟨left, right⟩
    rw [split, left, right, dead, rooted.pieces_eq, order, List.filterMap_append,
      List.filterMap_cons, pieceOf_deleted found dead]
    rfl
  · have next := rooted.split_outside found member positive inside fresh
    have same := (applySplit_spec found positive inside fresh).1
    have absent := rooted.fresh (by rw [fresh]; exact Bool.false_ne_true)
    rw [next.pieces_eq, rooted.pieces_eq]
    apply filterMap_pieceOf_congr
    intro id inTree
    rw [same.pieceOf, pieceOf, pieceOf, shown, shown, OrderedMap.get?_set_of_ne _ ?_,
      OrderedMap.get?_set_of_ne _ ?_]
    · rintro rfl
      exact member inTree
    · rintro rfl
      exact absent inTree

theorem pieces_applySplit (sound : Sound state) {before after : PieceTable String UInt16}
    {text : List UInt16} (whole : state.pieces = before ++ (runId, text) :: after)
    (positive : 0 < offset) (inside : offset < text.length)
    (fresh : state.nodes.get? (makeSplitId runId offset) = none) :
    (state.applySplit runId offset).pieces = before ++ (runId, text.take offset.toNat) ::
      (makeSplitId runId offset, text.drop offset.toNat) :: after := by
  rcases sound with ⟨tree, grown, _⟩
  exact grown.rooted.pieces_applySplit whole positive inside fresh

end Splitting

/-! ## Inserts -/

section Inserting

variable {state : DocState} {tree : Forest String} {node : RunNode}

/-- The siblings before a new run show no text. -/
def LeadsSiblings (state : DocState) (node : RunNode) : Prop :=
  ∀ sibling ∈ (state.childIds node.parentId).take (placeOf state node),
    ((state.dfs sibling).filter RunNode.visible).flatMap RunNode.text = []

theorem text_filterMap_pieceOf (nodes : OrderedMap String RunNode) (ids : List String) :
    PieceTable.text (ids.filterMap (pieceOf nodes)) =
      ((ids.filterMap nodes.get?).filter RunNode.visible).flatMap RunNode.text := by
  rw [List.filter_filterMap]
  induction ids with
  | nil => rfl
  | cons id rest induction =>
      rw [List.filterMap_cons, List.filterMap_cons, pieceOf, shown]
      cases (nodes.get? id).filter RunNode.visible with
      | none => exact induction
      | some node =>
          rw [List.flatMap_cons, ← induction]
          rfl

theorem LeadsSiblings.text_eq_nil (leads : LeadsSiblings state node) (grown : Grown state tree)
    {below : Forest String} (inside : ∀ id ∈ below.order, id ∈ tree.order)
    (nodup : below.order.Nodup) (roots : state.childIds node.parentId = below.roots)
    (follows : below.Follows state.childIds) :
    PieceTable.text ((Forest.orderTake (placeOf state node) below).filterMap
      (pieceOf state.nodes)) = [] := by
  have visited : ∀ id ∈ below.order, (state.nodes.get? id).isSome := fun id member =>
    (grown.stored id).mp (inside id member)
  have enough : below.height ≤ state.nodes.keys.length :=
    Nat.le_trans (Nat.le_trans below.height_le (List.subperm_of_subset nodup inside).length_le)
      grown.length_le
  have walked := Forest.flatMap_traverse_take follows visited enough (placeOf state node)
  rw [text_filterMap_pieceOf, ← walked, List.filter_flatMap, List.flatMap_assoc,
    List.flatMap_eq_nil_iff, ← roots]
  exact leads

theorem pieces_applyInsertRun (grown : Grown state tree)
    (fresh : state.nodes.get? node.id = none)
    (parent : (state.nodes.get? node.parentId).isSome = true) (live : node.deleted = false)
    (leads : LeadsSiblings state node) :
    ∃ first second between after, tree.order = first ++ node.parentId :: second ∧
      PieceTable.text between = [] ∧
        state.pieces = (first ++ [node.parentId]).filterMap (pieceOf state.nodes) ++
          (between ++ after) ∧
        (state.applyInsertRun node).pieces =
          (first ++ [node.parentId]).filterMap (pieceOf state.nodes) ++
            (between ++ (node.id, node.text) :: after) := by
  have absent : ¬ (state.nodes.get? node.id).isSome = true := by
    rw [fresh]
    exact Bool.false_ne_true
  have written : (state.applyInsertRun node).nodes = state.nodes.set node.id node := by
    rw [applyInsertRun, if_neg absent]
    rfl
  have next : Grown (state.applyInsertRun node)
      (tree.insertUnder node.parentId node.id (placeOf state node)) := by
    rw [applyInsertRun, if_neg absent]
    exact (grown.withRun absent parent).reindex _
  have notRoot : node.id ≠ rootId := by
    intro same
    rcases grown.root with ⟨root, rootFound, _⟩
    rw [same, rootFound] at fresh
    cases fresh
  rcases Forest.order_insertUnder node.id (placeOf state node) grown.follows grown.nodup
    ((grown.stored _).mpr parent) with ⟨first, below, second, order, nextOrder, roots, follows⟩
  have parted := Forest.orderTake_append_orderDrop (placeOf state node) below
  have outside := grown.fresh absent
  have nodup := grown.nodup
  rw [order, List.nodup_append, List.nodup_cons, List.nodup_append] at nodup
  have hidden := leads.text_eq_nil grown
    (fun id member => by
      rw [order]
      exact List.mem_append_right _ (List.mem_cons_of_mem _ (List.mem_append_left _ member)))
    nodup.2.1.2.1 roots follows
  have kept : ∀ ids : List String, (∀ id ∈ ids, id ∈ tree.order) →
      ids.filterMap (pieceOf (state.applyInsertRun node).nodes) =
        ids.filterMap (pieceOf state.nodes) := by
    intro ids inTree
    apply filterMap_pieceOf_congr
    intro id listed
    rw [written, pieceOf, pieceOf, shown, shown, OrderedMap.get?_set_of_ne]
    rintro rfl
    exact outside (inTree _ listed)
  have piece : pieceOf (state.applyInsertRun node).nodes node.id = some (node.id, node.text) := by
    apply pieceOf_live rfl _ live notRoot
    rw [written, OrderedMap.get?_set_self]
  rw [← parted] at order
  refine ⟨first, _, (Forest.orderTake (placeOf state node) below).filterMap (pieceOf state.nodes),
    (Forest.orderDrop (placeOf state node) below ++ second).filterMap (pieceOf state.nodes),
    order, hidden, ?_, ?_⟩
  · rw [grown.rooted.pieces_eq, order, ← List.filterMap_append, ← List.filterMap_append]
    simp only [List.append_assoc, List.cons_append, List.nil_append]
  · have firstKept := kept (first ++ [node.parentId]) (by rw [order]; grind)
    have betweenKept := kept (Forest.orderTake (placeOf state node) below) (by rw [order]; grind)
    have afterKept := kept (Forest.orderDrop (placeOf state node) below ++ second)
      (by rw [order]; grind)
    rw [next.rooted.pieces_eq, nextOrder, ← firstKept, ← betweenKept, ← afterKept]
    have parts : first ++ node.parentId :: (Forest.orderTake (placeOf state node) below ++
        node.id :: (Forest.orderDrop (placeOf state node) below ++ second)) =
      (first ++ [node.parentId]) ++ (Forest.orderTake (placeOf state node) below ++
        ([node.id] ++ (Forest.orderDrop (placeOf state node) below ++ second))) := by
      simp only [List.append_assoc, List.cons_append, List.nil_append]
    have leaf : [node.id].filterMap (pieceOf (state.applyInsertRun node).nodes) =
        [(node.id, node.text)] := by
      rw [List.filterMap_cons, piece]
      rfl
    rw [parts]
    simp only [List.filterMap_append, leaf]
    rfl

theorem pieces_insert_first (sound : Sound state) (fresh : state.nodes.get? node.id = none)
    (parent : node.parentId = rootId) (live : node.deleted = false)
    (leads : LeadsSiblings state node) :
    ∃ between after, PieceTable.text between = [] ∧ state.pieces = between ++ after ∧
      (state.applyInsertRun node).pieces = between ++ (node.id, node.text) :: after := by
  rcases sound with ⟨tree, grown, _⟩
  rcases grown.root with ⟨root, rootFound, _⟩
  rcases pieces_applyInsertRun grown fresh (by rw [parent, rootFound]; rfl) live leads with
    ⟨first, second, between, after, order, hidden, whole, inserted⟩
  have nothing : (first ++ [node.parentId]).filterMap (pieceOf state.nodes) = [] := by
    rw [parent] at order ⊢
    rw [grown.nothing_before_root order, List.nil_append, List.filterMap_cons, pieceOf,
      grown.shown_root]
    rfl
  rw [nothing] at whole inserted
  exact ⟨between, after, hidden, whole, inserted⟩

theorem pieces_insert_after (sound : Sound state) (fresh : state.nodes.get? node.id = none)
    {before rest : PieceTable String UInt16} {text : List UInt16}
    (parent : state.pieces = before ++ (node.parentId, text) :: rest) (live : node.deleted = false)
    (leads : LeadsSiblings state node) :
    ∃ between after, PieceTable.text between = [] ∧ rest = between ++ after ∧
      (state.applyInsertRun node).pieces =
        before ++ (node.parentId, text) :: (between ++ (node.id, node.text) :: after) := by
  rcases sound with ⟨tree, grown, _⟩
  have member : (node.parentId, text) ∈ state.pieces := by
    rw [parent]
    exact List.mem_append_right _ List.mem_cons_self
  rcases grown.rooted.node_of_mem_pieces member with ⟨notRoot, parentNode, found, parentLive, rfl⟩
  rcases pieces_applyInsertRun grown fresh (by rw [found]; rfl) live leads with
    ⟨first, second, between, after, order, hidden, whole, inserted⟩
  rcases grown.rooted.pieces_around order parent with ⟨rfl, _⟩
  have upTo : (first ++ [node.parentId]).filterMap (pieceOf state.nodes) =
      first.filterMap (pieceOf state.nodes) ++ [(node.parentId, parentNode.text)] := by
    rw [List.filterMap_append, List.filterMap_cons, pieceOf_live
      (grown.named node.parentId parentNode found) found parentLive notRoot]
    rfl
  rw [upTo, List.append_assoc] at whole inserted
  refine ⟨between, after, hidden, ?_, inserted⟩
  have both := parent.symm.trans whole
  exact (List.cons.inj (List.append_cancel_left both)).2

end Inserting

/-! ## Deleted ranges -/

section Deleting

variable {state : DocState} {runId : String}

/-- The ids of the halves a deletion cuts off are new. -/
def SplitIdsFresh (state : DocState) (runId : String) (offset count length : Nat) : Prop :=
  if offset = 0 then count < length → state.nodes.get? (makeSplitId runId count) = none
  else
    state.nodes.get? (makeSplitId runId offset) = none ∧
      (offset + count < length →
        state.nodes.get? (makeSplitId (makeSplitId runId offset) count) = none)

theorem fresh_applySplit {node : RunNode} {offset count : Int}
    (found : state.nodes.get? runId = some node) (positive : 0 < offset)
    (inside : offset < node.text.length)
    (fresh : state.nodes.get? (makeSplitId runId offset) = none)
    (absent : state.nodes.get? (makeSplitId (makeSplitId runId offset) count) = none) :
    (state.applySplit runId offset).nodes.get? (makeSplitId (makeSplitId runId offset) count) =
      none := by
  rw [← Option.not_isSome_iff_eq_none, nodes_applySplit_of_ne found positive inside fresh
    (makeSplitId_twice_ne_self runId offset count) (makeSplitId_ne_self _ _), absent]
  exact Bool.false_ne_true

theorem Rooted.pieces_applyDeleteRange {tree : Forest String} (rooted : Rooted state tree)
    {before after : PieceTable String UInt16} {text : List UInt16}
    (whole : state.pieces = before ++ (runId, text) :: after)
    {offset count : Nat} (positive : 0 < count) (inside : offset + count ≤ text.length)
    (fresh : SplitIdsFresh state runId offset count text.length) :
    ∃ tail : PieceTable String UInt16,
      (state.applyDeleteRange runId offset count).pieces =
        before ++ ((if offset = 0 then [] else [(runId, text.take offset)]) ++ (tail ++ after)) ∧
      PieceTable.text tail = text.drop (offset + count) ∧
        ∀ piece ∈ tail, state.nodes.get? piece.1 = none := by
  have member : (runId, text) ∈ state.pieces := by
    rw [whole]
    exact List.mem_append_right _ List.mem_cons_self
  rcases (rooted.node_of_mem_pieces member).2 with ⟨node, found, live, rfl⟩
  rw [SplitIdsFresh] at fresh
  rw [applyDeleteRange, found]
  dsimp only
  rw [live, if_neg Bool.false_ne_true, if_neg (by omega)]
  by_cases start : offset = 0
  · subst start
    rw [if_pos rfl] at fresh
    by_cases all : count = node.text.length
    · rw [if_pos ⟨rfl, by rw [all]⟩]
      refine ⟨[], rooted.pieces_tombstoneRun whole, ?_, fun piece listed => ?_⟩
      · rw [Nat.zero_add, all, List.drop_length]
        rfl
      · cases listed
    · have part : count < node.text.length := by omega
      rw [if_neg (by omega), if_pos rfl]
      have split := @Rooted.pieces_applySplit state tree runId count rooted _ _ _ whole (by omega)
        (by omega) (fresh part)
      rcases rooted.exists_split runId count with ⟨_, next⟩
      rw [Int.toNat_natCast] at split
      refine ⟨[(makeSplitId runId count, node.text.drop count)],
        next.pieces_tombstoneRun split, ?_, ?_⟩
      · rw [Nat.zero_add]
        exact List.append_nil _
      · intro piece listed
        rw [List.mem_singleton.mp listed]
        exact fresh part
  · rw [if_neg start] at fresh ⊢
    rw [if_neg (by omega), if_neg (by omega)]
    have split := @Rooted.pieces_applySplit state tree runId offset rooted _ _ _ whole (by omega)
      (by omega) fresh.1
    rcases rooted.exists_split runId offset with ⟨_, next⟩
    rw [Int.toNat_natCast] at split
    by_cases ends : offset + count = node.text.length
    · rw [if_pos (by omega)]
      rw [List.append_cons] at split
      refine ⟨[], ?_, ?_, fun piece listed => ?_⟩
      · rw [next.pieces_tombstoneRun split, List.append_assoc]
        rfl
      · rw [ends, List.drop_length]
        rfl
      · cases listed
    · rw [if_neg (by omega)]
      have freshNext := fresh_applySplit found (show 0 < (offset : Int) by omega) (by omega) fresh.1
        (fresh.2 (by omega))
      rw [List.append_cons] at split
      have again := @Rooted.pieces_applySplit _ _ _ count next _ _ _ split (by omega)
        (by rw [List.length_drop]; omega) freshNext
      rcases next.exists_split (makeSplitId runId offset) count with ⟨_, last⟩
      rw [Int.toNat_natCast] at again
      refine ⟨[(makeSplitId (makeSplitId runId offset) count,
        (node.text.drop offset).drop count)], ?_, ?_, ?_⟩
      · rw [last.pieces_tombstoneRun again, List.append_assoc]
        rfl
      · rw [List.drop_drop]
        exact List.append_nil _
      · intro piece listed
        rw [List.mem_singleton.mp listed]
        exact fresh.2 (by omega)

theorem pieces_applyDeleteRange (sound : Sound state) {before after : PieceTable String UInt16}
    {text : List UInt16} (whole : state.pieces = before ++ (runId, text) :: after)
    {offset count : Nat} (positive : 0 < count) (inside : offset + count ≤ text.length)
    (fresh : SplitIdsFresh state runId offset count text.length) :
    ∃ tail : PieceTable String UInt16,
      (state.applyDeleteRange runId offset count).pieces =
        before ++ ((if offset = 0 then [] else [(runId, text.take offset)]) ++ (tail ++ after)) ∧
      PieceTable.text tail = text.drop (offset + count) ∧
        ∀ piece ∈ tail, state.nodes.get? piece.1 = none := by
  rcases sound with ⟨tree, grown, _⟩
  exact grown.rooted.pieces_applyDeleteRange whole positive inside fresh

end Deleting

/-! ## What stays -/

section Staying

variable {state : DocState} {id : String}

theorem isSome_set {nodes : OrderedMap String RunNode} (stored : (nodes.get? id).isSome = true)
    (key : String) (node : RunNode) : ((nodes.set key node).get? id).isSome = true := by
  rw [OrderedMap.get?_set]
  split
  · rfl
  · exact stored

section

variable (stored : (state.nodes.get? id).isSome = true)
include stored

theorem stored_tombstoneRun (runId : String) :
    ((state.tombstoneRun runId).nodes.get? id).isSome = true := by
  rw [tombstoneRun]
  split
  · exact stored
  · split
    · exact stored
    · exact isSome_set stored _ _

theorem stored_applySplit (runId : String) (offset : Int)
    : ((state.applySplit runId offset).nodes.get? id).isSome = true := by
  rcases applySplit_cases state runId offset with
    same | ⟨node, found, positive, inside, fresh⟩
  · rw [same]
    exact stored
  · rw [(applySplit_spec found positive inside fresh).1.isSome]
    exact isSome_set (isSome_set stored _ _) _ _

theorem stored_applyDeleteRange (runId : String) (offset count : Int) :
    ((state.applyDeleteRange runId offset count).nodes.get? id).isSome = true := by
  rw [applyDeleteRange]
  split
  · exact stored
  · split
    · exact stored
    · dsimp only
      split
      · exact stored
      · split
        · exact stored_tombstoneRun stored _
        · split
          · exact stored_tombstoneRun (stored_applySplit stored _ _) _
          · split
            · exact stored_tombstoneRun (stored_applySplit stored _ _) _
            · exact stored_tombstoneRun (stored_applySplit (stored_applySplit stored _ _) _ _) _

theorem stored_applyExtendRun (runId : String) (appendText : List UInt16) (hlc : HLCTimestamp) :
    ((state.applyExtendRun runId appendText hlc).nodes.get? id).isSome = true := by
  rw [applyExtendRun]
  split
  · exact stored
  · split
    · exact stored
    · exact isSome_set stored _ _

theorem stored_applyInsertRun (node : RunNode) :
    ((state.applyInsertRun node).nodes.get? id).isSome = true := by
  rw [applyInsertRun]
  split
  · exact stored
  · exact isSome_set stored _ _

end

/-! ### Children -/

theorem childIds_tombstoneRun (state : DocState) (runId : String) (id : String) :
    (state.tombstoneRun runId).childIds id = state.childIds id := by
  rw [tombstoneRun]
  split
  · rfl
  · split
    · rfl
    · rfl

theorem childIds_applySplit_of_ne (stored : (state.nodes.get? id).isSome = true) {runId : String}
    (apart : id ≠ runId) (offset : Int) :
    (state.applySplit runId offset).childIds id = state.childIds id := by
  rcases applySplit_cases state runId offset with
    same | ⟨node, found, positive, inside, fresh⟩
  · rw [same]
  · have other : id ≠ makeSplitId runId offset := by
      rintro rfl
      rw [fresh] at stored
      cases stored
    rw [childIds, (applySplit_spec found positive inside fresh).2,
      OrderedMap.get?_set_of_ne _ apart, OrderedMap.get?_set_of_ne _ other]
    rfl

theorem childIds_applyDeleteRange_of_ne (stored : (state.nodes.get? id).isSome = true)
    {runId : String} (apart : id ≠ runId) {offset count length : Nat}
    (fresh : SplitIdsFresh state runId offset count length) :
    (state.applyDeleteRange runId offset count).childIds id = state.childIds id := by
  rw [applyDeleteRange]
  split
  · rfl
  · split
    · rfl
    · dsimp only
      split
      · rfl
      · split
        · exact childIds_tombstoneRun _ _ _
        · split
          · rw [childIds_tombstoneRun, childIds_applySplit_of_ne stored apart]
          · next start =>
              rw [SplitIdsFresh, if_neg (by omega)] at fresh
              have other : id ≠ makeSplitId runId offset := by
                rintro rfl
                rw [fresh.1] at stored
                cases stored
              split
              · rw [childIds_tombstoneRun, childIds_applySplit_of_ne stored apart]
              · rw [childIds_tombstoneRun,
                  childIds_applySplit_of_ne (stored_applySplit stored _ _) other,
                  childIds_applySplit_of_ne stored apart]

theorem childIds_applyDeleteRange_self {runId : String} {node : RunNode}
    (found : state.nodes.get? runId = some node) (live : node.deleted = false)
    {offset count : Nat} (start : 0 < offset) (positive : 0 < count)
    (inside : offset + count ≤ node.text.length)
    (fresh : SplitIdsFresh state runId offset count node.text.length) :
    (state.applyDeleteRange runId offset count).childIds runId = [makeSplitId runId offset] := by
  rw [SplitIdsFresh, if_neg (by omega)] at fresh
  have split := childIds_applySplit found (show 0 < (offset : Int) by omega) (by omega) fresh.1
  rw [applyDeleteRange, found]
  dsimp only
  rw [live, if_neg Bool.false_ne_true, if_neg (by omega), if_neg (by omega), if_neg (by omega)]
  by_cases ends : (offset : Int) + count = node.text.length
  · rw [if_pos ends, childIds_tombstoneRun, split]
  · rw [if_neg ends, childIds_tombstoneRun,
      childIds_applySplit_of_ne (stored_applySplit (by rw [found]; rfl) _ _)
        (Ne.symm (makeSplitId_ne_self runId offset)), split]

end Staying

end DocState

end Ebb.Text
