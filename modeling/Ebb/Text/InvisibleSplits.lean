import Ebb.Text.ReachableStates
import Mathlib.Algebra.Order.BigOperators.Group.List
import Mathlib.Algebra.Order.Group.Nat

namespace Ebb.Text

/-! A split leaves what a reader sees as it was: the text, its length, the code unit at each
position and the order of the runs. -/

/-- The code units a run counts for in the index. -/
def RunNode.liveLength (node : RunNode) : Nat := if node.deleted then 0 else node.text.length

namespace DocState

/-! ## The length of the index -/

/-- The code units of all runs that are no tombstones, read or not. -/
def liveTotal (nodes : OrderedMap String RunNode) : Nat :=
  (nodes.entries.map fun entry => entry.2.liveLength).sum

/-- The length the index has is that of all runs that are no tombstones. -/
def Counted (state : DocState) : Prop := state.index.totalLength = liveTotal state.nodes

variable (nodes : OrderedMap String RunNode)

theorem liveTotal_set (id : String) (node : RunNode) :
    liveTotal (nodes.set id node) + ((nodes.get? id).map RunNode.liveLength).getD 0 =
      liveTotal nodes + node.liveLength := by
  cases found : nodes.get? id with
  | none =>
      rw [liveTotal, OrderedMap.entries_set_of_absent found, List.map_append, List.sum_append]
      rfl
  | some earlier =>
      rcases OrderedMap.exists_split found with ⟨before, after, whole, _, written⟩
      rw [liveTotal, liveTotal, written, whole]
      simp only [List.map_append, List.map_cons, List.sum_append, List.sum_cons, Option.map_some,
        Option.getD_some]
      omega

theorem liveTotal_set_found {nodes : OrderedMap String RunNode} {id : String} {earlier : RunNode}
    (found : nodes.get? id = some earlier) (node : RunNode) :
    liveTotal (nodes.set id node) + earlier.liveLength = liveTotal nodes + node.liveLength := by
  have written := liveTotal_set nodes id node
  rw [found] at written
  exact written

theorem liveTotal_reparent (splitId : String) (childIds : List String)
    (nodes : OrderedMap String RunNode) :
    liveTotal (childIds.foldl
      (fun nodes childId =>
        match nodes.get? childId with
        | some child => nodes.set childId { child with parentId := splitId }
        | none => nodes) nodes) = liveTotal nodes := by
  induction childIds generalizing nodes with
  | nil => rfl
  | cons childId rest induction =>
      rw [List.foldl_cons, induction]
      split
      · next child found =>
          have written := liveTotal_set_found found { child with parentId := splitId }
          exact Nat.add_right_cancel written
      · rfl

theorem liveLength_of_live {node : RunNode} (live : ¬ node.deleted = true) :
    node.liveLength = node.text.length := if_neg live

theorem liveLength_of_deleted {node : RunNode} (deleted : node.deleted = true) :
    node.liveLength = 0 := if_pos deleted

theorem Counted.insert {state : DocState} (counted : Counted state) (node : RunNode) :
    Counted (state.applyInsertRun node) := by
  rw [applyInsertRun]
  split
  · exact counted
  · next fresh =>
      have written := liveTotal_set state.nodes node.id node
      rw [Option.not_isSome_iff_eq_none.mp fresh] at written
      have written : liveTotal (state.nodes.set node.id node) =
          liveTotal state.nodes + node.liveLength := written
      rw [Counted] at counted ⊢
      dsimp only
      split
      · next deleted =>
          rw [liveLength_of_deleted deleted] at written
          exact counted.trans (congrArg Nat.cast written.symm)
      · next live =>
          rw [liveLength_of_live live] at written
          dsimp only
          rw [counted]
          exact congrArg Nat.cast written.symm

theorem Counted.split {state : DocState} (counted : Counted state) (runId : String)
    (offset : Int) : Counted (state.applySplit runId offset) := by
  rw [applySplit]
  split
  · exact counted
  · next node found =>
      dsimp only
      split
      · exact counted
      · next inside =>
          split
          · exact counted
          · next fresh =>
              have apart := makeSplitId_ne_self runId offset
              have left := liveTotal_set_found found
                { node with text := node.text.take offset.toNat }
              have right := liveTotal_set
                (state.nodes.set runId { node with text := node.text.take offset.toNat })
                (makeSplitId runId offset) { node with
                  id := makeSplitId runId offset
                  text := node.text.drop offset.toNat
                  parentId := runId }
              rw [OrderedMap.get?_set_of_ne _ apart, Option.not_isSome_iff_eq_none.mp fresh] at right
              have whole : liveTotal ((state.nodes.set runId
                  { node with text := node.text.take offset.toNat }).set (makeSplitId runId offset)
                  { node with
                    id := makeSplitId runId offset
                    text := node.text.drop offset.toNat
                    parentId := runId }) = liveTotal state.nodes := by
                simp only [RunNode.liveLength, List.length_take, List.length_drop, Option.map_none,
                  Option.getD_none] at left right
                split at left
                · next deleted =>
                    rw [if_pos deleted] at right
                    omega
                · next live =>
                    rw [if_neg live] at right
                    omega
              have total : state.index.totalLength = liveTotal ((state.childIds runId).foldl
                  (fun nodes childId =>
                    match nodes.get? childId with
                    | some child =>
                        nodes.set childId { child with parentId := makeSplitId runId offset }
                    | none => nodes)
                  ((state.nodes.set runId { node with text := node.text.take offset.toNat }).set
                    (makeSplitId runId offset) { node with
                      id := makeSplitId runId offset
                      text := node.text.drop offset.toNat
                      parentId := runId })) := by
                rw [liveTotal_reparent, whole]
                exact counted
              split
              · exact total
              · split
                · exact total
                · exact total

theorem kept_counted : Kept Counted := by
  constructor
  case insert => exact fun node counted => counted.insert node
  case split => exact fun runId offset counted => counted.split runId offset
  case tombstone =>
    intro state runId counted
    rw [tombstoneRun]
    split
    · exact counted
    · next node found =>
        split
        · exact counted
        · next live =>
            have written := liveTotal_set_found found { node with deleted := true }
            have gone : RunNode.liveLength { node with deleted := true } = 0 := rfl
            rw [gone, liveLength_of_live live] at written
            rw [Counted] at counted ⊢
            dsimp only
            omega
  case extend =>
    intro state runId appendText hlc counted
    rw [applyExtendRun]
    split
    · exact counted
    · next node found =>
        split
        · exact counted
        · next live =>
            have written := liveTotal_set_found found
              { node with text := node.text ++ appendText, hlc }
            have longer : RunNode.liveLength { node with text := node.text ++ appendText, hlc } =
                (node.text ++ appendText).length := if_neg live
            rw [longer, liveLength_of_live live, List.length_append] at written
            rw [Counted] at counted ⊢
            dsimp only
            omega
  case replace =>
    intro state runId newNode counted
    rw [applySetRun]
    split
    · exact counted
    · next existing found =>
        split
        · exact counted
        · next live =>
            have written := liveTotal_set_found found { newNode with
              id := runId
              parentId := existing.parentId
              deleted := false }
            have other : RunNode.liveLength { newNode with
                id := runId
                parentId := existing.parentId
                deleted := false } = newNode.text.length := rfl
            rw [other, liveLength_of_live live] at written
            rw [Counted] at counted ⊢
            dsimp only
            omega

theorem counted_of_run {edits : List Edit} {final : DocState}
    (reached : machine.run createDocState edits = some final) : Counted final :=
  kept_counted.run rfl reached

/-! ## The text of the root -/

theorem liveTotal_keys : liveTotal nodes =
    (nodes.keys.map fun id => ((nodes.get? id).map RunNode.liveLength).getD 0).sum := by
  rw [liveTotal, OrderedMap.keys, List.map_map]
  apply congrArg List.sum
  apply List.map_congr_left
  intro entry member
  rw [Function.comp_apply, (OrderedMap.get?_eq_some_iff nodes entry.1 entry.2).mpr member]
  rfl

theorem sum_le_liveTotal {nodes : OrderedMap String RunNode} {ids : List String}
    (nodup : ids.Nodup) (stored : ∀ id ∈ ids, (nodes.get? id).isSome = true) :
    (ids.map fun id => ((nodes.get? id).map RunNode.liveLength).getD 0).sum ≤ liveTotal nodes := by
  have listed : ids.Subperm nodes.keys := by
    apply List.subperm_of_subset nodup
    intro id member
    rw [OrderedMap.mem_keys_iff]
    exact Option.isSome_iff_exists.mp (stored id member)
  rcases listed with ⟨others, perm, sublist⟩
  rw [liveTotal_keys, ← (perm.map _).sum_eq]
  exact (sublist.map _).sum_le_sum fun _ _ => Nat.zero_le _

theorem Indexed.root_bare {state : DocState} {tree : Forest String} (indexed : Indexed state)
    (counted : Counted state) (rooted : Rooted state tree) {root : RunNode}
    (found : state.nodes.get? rootId = some root) (live : root.deleted = false) :
    root.text = [] := by
  have keys : (rootId :: PieceTable.keys state.pieces).Nodup := by
    rw [List.nodup_cons]
    refine ⟨fun member => ?_, rooted.nodup_pieces⟩
    rcases List.mem_map.mp member with ⟨⟨id, text⟩, listed, rfl⟩
    exact (rooted.node_of_mem_pieces listed).1 rfl
  have stored : ∀ id ∈ rootId :: PieceTable.keys state.pieces,
      (state.nodes.get? id).isSome = true := by
    intro id member
    rcases List.mem_cons.mp member with rfl | later
    · rw [found]
      rfl
    · rcases List.mem_map.mp later with ⟨⟨id, text⟩, listed, rfl⟩
      rcases (rooted.node_of_mem_pieces listed).2 with ⟨node, held, _⟩
      rw [held]
      rfl
  have shownLength : ((PieceTable.keys state.pieces).map fun id =>
      ((state.nodes.get? id).map RunNode.liveLength).getD 0).sum = state.reconstruct.length := by
    rw [← text_pieces, PieceTable.text, List.length_flatMap, PieceTable.keys, List.map_map]
    apply congrArg List.sum
    apply List.map_congr_left
    rintro ⟨id, text⟩ listed
    rcases (rooted.node_of_mem_pieces listed).2 with ⟨node, held, shows, rfl⟩
    rw [Function.comp_apply, held, Option.map_some, Option.getD_some,
      liveLength_of_live (by rw [shows]; exact Bool.false_ne_true)]
  have bound := sum_le_liveTotal keys stored
  have total := indexed.total.symm.trans counted
  rw [List.map_cons, List.sum_cons, shownLength, found, Option.map_some, Option.getD_some,
    liveLength_of_live (by rw [live]; exact Bool.false_ne_true)] at bound
  apply List.eq_nil_of_length_eq_zero
  omega

/-! ## Splits -/

/-- The code unit a position leads to. -/
def characterAt (state : DocState) (position : Int) : Option UInt16 :=
  (state.index.lookupPosition position).bind fun lookup =>
    (state.nodes.get? lookup.runId).bind fun node => node.text[lookup.offset]?

theorem Indexed.characterAt_eq {state : DocState} (indexed : Indexed state) (position : Int) :
    state.characterAt position =
      if position < 0 then none else state.reconstruct[position.toNat]? := by
  by_cases inside : 0 ≤ position ∧ position < state.index.totalLength
  · rcases Int.eq_ofNat_of_zero_le inside.1 with ⟨place, rfl⟩
    rcases indexed.lookup place inside.2 with ⟨lookup, node, found, held, _, _, same⟩
    rw [characterAt, found, Option.bind_some, held, Option.bind_some, same, if_neg (by omega)]
    rfl
  · have nowhere : state.index.lookupPosition position = none := by
      rw [PositionIndex.lookupPosition, if_pos (by omega)]
    have total := indexed.total
    rw [characterAt, nowhere]
    split
    · rfl
    · rw [List.getElem?_eq_none (by omega)]
      rfl

theorem spans_eq_pieces (state : DocState) : state.visibleRuns.map RunNode.span =
    state.pieces.map fun piece => { runId := piece.1, length := piece.2.length } := by
  rw [pieces, List.map_map]
  rfl

section Splits

variable {state : DocState} {tree : Forest String} {runId : String} {node : RunNode} {offset : Int}

theorem totalLength_applySplit (state : DocState) (runId : String) (offset : Int) :
    (state.applySplit runId offset).index.totalLength = state.index.totalLength := by
  rw [applySplit]
  split
  · rfl
  · dsimp only
    split
    · rfl
    · split
      · rfl
      · split
        · rfl
        · split
          · rfl
          · rfl

theorem spans_applySplit (found : state.nodes.get? runId = some node) (positive : 0 < offset)
    (inside : offset < node.text.length)
    (fresh : state.nodes.get? (makeSplitId runId offset) = none) :
    (state.applySplit runId offset).index.spans =
      if node.deleted then state.index.spans
      else
        match state.index.spans.findIdx? fun span => span.runId == runId with
        | none => state.index.spans
        | some spanIndex => state.index.spans.take spanIndex ++
            { runId, length := offset.toNat } ::
            { runId := makeSplitId runId offset, length := node.text.length - offset.toNat } ::
            state.index.spans.drop (spanIndex + 1) := by
  rw [applySplit, found]
  dsimp only
  rw [if_neg (by omega), if_neg (by rw [fresh]; exact Bool.false_ne_true)]
  cases node.deleted with
  | true => rfl
  | false =>
      cases state.index.spans.findIdx? fun span => span.runId == runId with
      | none => rfl
      | some spanIndex => rfl

theorem Indexed.spans_split (indexed : Indexed state) (rooted : Rooted state tree)
    (found : state.nodes.get? runId = some node)
    (notRoot : node.deleted = false → runId ≠ rootId) (positive : 0 < offset)
    (inside : offset < node.text.length)
    (fresh : state.nodes.get? (makeSplitId runId offset) = none) :
    (state.applySplit runId offset).index.spans =
      (state.applySplit runId offset).pieces.map fun piece =>
        { runId := piece.1, length := piece.2.length } := by
  have spans := indexed.spans.trans (spans_eq_pieces state)
  rw [spans_applySplit found positive inside fresh]
  by_cases reads : runId ∈ PieceTable.keys state.pieces
  · rcases List.mem_map.mp reads with ⟨⟨id, text⟩, listed, rfl⟩
    rcases rooted.node_of_mem_pieces listed with ⟨_, other, held, live, rfl⟩
    rw [found] at held
    cases held
    rcases List.append_of_mem listed with ⟨before, after, whole⟩
    have apart : ∀ span ∈ before.map (fun piece : String × List UInt16 =>
        ({ runId := piece.1, length := piece.2.length } : RunSpan)), span.runId ≠ id := by
      intro span member same
      rcases List.mem_map.mp member with ⟨piece, early, rfl⟩
      have nodup := rooted.nodup_pieces
      rw [whole, PieceTable.keys_append, List.nodup_append] at nodup
      exact nodup.2.2 piece.1 (PieceTable.mem_keys early) id List.mem_cons_self same
    rw [rooted.pieces_applySplit whole positive inside fresh, live, if_neg Bool.false_ne_true,
      spans, whole, List.map_append, List.map_cons, findIdx?_of_apart apart rfl]
    dsimp only
    rw [List.take_left, drop_middle, List.map_append, List.map_cons, List.map_cons,
      List.length_take, List.length_drop, Nat.min_eq_left (by omega)]
  · rw [rooted.pieces_applySplit_hidden found notRoot reads positive inside fresh]
    have unlisted : state.index.spans.findIdx? (fun span => span.runId == runId) = none := by
      rw [List.findIdx?_eq_none_iff, spans]
      intro span member
      rcases List.mem_map.mp member with ⟨piece, listed, rfl⟩
      apply beq_eq_false_iff_ne.mpr
      rintro rfl
      exact reads (PieceTable.mem_keys listed)
    rw [unlisted]
    dsimp only
    split
    · exact spans
    · exact spans

theorem text_applySplit (rooted : Rooted state tree) (found : state.nodes.get? runId = some node)
    (notRoot : node.deleted = false → runId ≠ rootId) (positive : 0 < offset)
    (inside : offset < node.text.length)
    (fresh : state.nodes.get? (makeSplitId runId offset) = none) :
    (state.applySplit runId offset).reconstruct = state.reconstruct := by
  rw [← text_pieces, ← text_pieces]
  by_cases reads : runId ∈ PieceTable.keys state.pieces
  · rcases List.mem_map.mp reads with ⟨⟨id, text⟩, listed, rfl⟩
    rcases rooted.node_of_mem_pieces listed with ⟨_, other, held, live, rfl⟩
    rw [found] at held
    cases held
    rcases List.append_of_mem listed with ⟨before, after, whole⟩
    rw [rooted.pieces_applySplit whole positive inside fresh, whole]
    simp only [PieceTable.text_append, PieceTable.text_cons]
    rw [← List.append_assoc (node.text.take _), List.take_append_drop]
  · rw [rooted.pieces_applySplit_hidden found notRoot reads positive inside fresh]

theorem order_applySplit (rooted : Rooted state tree) (found : state.nodes.get? runId = some node)
    (positive : 0 < offset) (inside : offset < node.text.length)
    (fresh : state.nodes.get? (makeSplitId runId offset) = none) :
    ((state.applySplit runId offset).order.filter fun id => id != makeSplitId runId offset) =
      state.order.filter fun id => id != makeSplitId runId offset := by
  by_cases member : runId ∈ tree.order
  · rcases Forest.order_interpose (makeSplitId runId offset) rooted.nodup member with
      ⟨first, second, order, nextOrder⟩
    have here : (makeSplitId runId offset != makeSplitId runId offset) = false :=
      bne_self_eq_false _
    rw [(rooted.split found member positive inside fresh).order_eq, rooted.order_eq, order,
      nextOrder, List.filter_append, List.filter_append, List.filter_cons, List.filter_cons,
      List.filter_cons, here]
    rfl
  · rw [(rooted.split_outside found member positive inside fresh).order_eq, rooted.order_eq]

end Splits

theorem Indexed.split {state : DocState} {tree : Forest String} (indexed : Indexed state)
    (counted : Counted state) (rooted : Rooted state tree) (listed : Listed state) (runId : String)
    (offset : Int) :
    (state.applySplit runId offset).reconstruct = state.reconstruct ∧
      Indexed (state.applySplit runId offset) := by
  rcases applySplit_cases state runId offset with
    unchanged | ⟨node, found, positive, inside, fresh⟩
  · rw [unchanged]
    exact ⟨rfl, indexed⟩
  · have notRoot : node.deleted = false → runId ≠ rootId := by
      rintro live rfl
      have bare := indexed.root_bare counted rooted found live
      rw [bare, List.length_nil] at inside
      omega
    have text := text_applySplit rooted found notRoot positive inside fresh
    rcases (listed.split runId offset).exists_rooted with ⟨next, nextRooted, _⟩
    refine ⟨text, nextRooted.indexed ?_ ?_⟩
    · rw [spans_eq_pieces]
      exact indexed.spans_split rooted found notRoot positive inside fresh
    · rw [totalLength_applySplit, text]
      exact indexed.total

/-- In every state whose index is in step with its text, a split changes nothing a reader
sees. -/
theorem split_invisible {edits : List Edit} {state : DocState}
    (reached : machine.run createDocState edits = some state) (indexed : Indexed state)
    (runId : String) (offset : Int) :
    (state.docReducer (.split runId offset)).reconstruct = state.reconstruct ∧
      (state.docReducer (.split runId offset)).index.totalLength = state.index.totalLength ∧
      (∀ position, (state.docReducer (.split runId offset)).characterAt position =
        state.characterAt position) ∧
      ((state.docReducer (.split runId offset)).order.filter
          fun id => id != makeSplitId runId offset) =
        state.order.filter fun id => id != makeSplitId runId offset := by
  have listed := listed_of_run reached
  rcases listed.exists_rooted with ⟨tree, rooted, _⟩
  rcases indexed.split (counted_of_run reached) rooted listed runId offset with ⟨text, next⟩
  refine ⟨text, totalLength_applySplit state runId offset, fun position => ?_, ?_⟩
  · rw [indexed.characterAt_eq, ← text]
    exact next.characterAt_eq position
  · rcases applySplit_cases state runId offset with
      unchanged | ⟨node, found, positive, inside, fresh⟩
    · rw [docReducer, unchanged]
    · exact order_applySplit rooted found positive inside fresh

def nestedRuns : List Edit :=
  [.reduce (.insertRun (run "1:usr_1" 1 [97, 98] rootId)),
    .reduce (.insertRun (run "2:usr_1" 2 [99] "1:usr_1"))]

theorem indexed_nestedRuns : Indexed (nestedRuns.foldl edit createDocState) := by
  have first : Sound (createDocState.applyInsertRun (run "1:usr_1" 1 [97, 98] rootId)) :=
    sound_createDocState.insert (.inr ⟨rfl, .inr (.inl ⟨rootNode, rfl, rfl⟩)⟩)
  have second : InsertMeets (createDocState.applyInsertRun (run "1:usr_1" 1 [97, 98] rootId))
      (run "2:usr_1" 2 [99] "1:usr_1") :=
    .inr ⟨rfl, .inr (.inl ⟨run "1:usr_1" 1 [97, 98] rootId, rfl, rfl⟩)⟩
  exact (first.insert second).indexed

theorem split_invisible_nestedRuns :
    ((nestedRuns.foldl edit createDocState).docReducer (.split "1:usr_1" 1)).reconstruct =
      [97, 98, 99] ∧
    ((nestedRuns.foldl edit createDocState).docReducer (.split "1:usr_1" 1)).characterAt 2 =
      some 99 := by
  rcases @split_invisible nestedRuns _ rfl indexed_nestedRuns "1:usr_1" 1 with
    ⟨text, _, characters, _⟩
  exact ⟨text, characters 2⟩

end DocState

end Ebb.Text
