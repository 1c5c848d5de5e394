import Ebb.Core.FieldValue
import Ebb.Foundation.Forest

namespace Ebb.Text

/-! The causal tree of `packages/schema/src/collaborative-text/tree.ts`: runs of text
ordered below their parents, and the position index its reducer maintains. A text is a
list of code units. -/

/-! ## State -/

structure RunNode where
  id : String
  hlc : HLCTimestamp
  actorId : String
  text : List UInt16
  parentId : String
  /-- The run is a tombstone. -/
  deleted : Bool
deriving DecidableEq

structure RunSpan where
  runId : String
  length : Nat
deriving DecidableEq

structure PositionIndex where
  spans : List RunSpan
  totalLength : Int

structure DocState where
  nodes : OrderedMap String RunNode
  children : OrderedMap String (List String)
  index : PositionIndex

structure PositionLookup where
  runId : String
  offset : Nat
  spanIndex : Nat
deriving DecidableEq

inductive DocAction where
  | insertRun (node : RunNode)
  | deleteRange (runId : String) (offset count : Int)
  | split (runId : String) (offset : Int)
  | extendRun (runId : String) (appendText : List UInt16) (hlc : HLCTimestamp)

def rootId : String := "ROOT"

def rootNode : RunNode where
  id := rootId
  hlc := 0
  actorId := ""
  text := []
  parentId := ""
  deleted := false

def createDocState : DocState where
  nodes := OrderedMap.empty.set rootId rootNode
  children := OrderedMap.empty.set rootId []
  index := { spans := [], totalLength := 0 }

def splitSeparator : String := ":s:"

def makeSplitId (originalId : String) (offset : Int) : String :=
  originalId ++ splitSeparator ++ toString offset

def compareHlc (left right : HLCTimestamp) : Int :=
  if left < right then -1 else if right < left then 1 else 0

/-- The order of siblings: the newer run first, then the one of the greater actor. -/
def compareRuns (left right : RunNode) : Int :=
  let hlc := compareHlc left.hlc right.hlc
  if hlc ≠ 0 then -hlc
  else if !codeUnitsGe right.actorId left.actorId then -1
  else if !codeUnitsGe left.actorId right.actorId then 1
  else 0

namespace DocState

def childIds (state : DocState) (id : String) : List String :=
  (state.children.get? id).getD []

/-- The nodes below an id, in document order. No path down the tree is longer than the
map of nodes. -/
def dfs (state : DocState) (id : String) : List RunNode :=
  Forest.traverse state.nodes.get? state.childIds state.nodes.keys.length id

end DocState

def RunNode.visible (node : RunNode) : Bool := !node.deleted && node.id != rootId

namespace DocState

def visibleRuns (state : DocState) : List RunNode :=
  (state.dfs rootId).filter RunNode.visible

def reconstruct (state : DocState) : List UInt16 :=
  state.visibleRuns.flatMap RunNode.text

def collectSubtreeIds (state : DocState) (id : String) : List String :=
  Forest.collect state.childIds state.nodes.keys.length [id]

end DocState

namespace PositionIndex

def lookupFrom (position : Nat) : List RunSpan → Nat → Nat → Option PositionLookup
  | [], _, _ => none
  | span :: rest, cumulative, spanIndex =>
      if position < cumulative + span.length then
        some { runId := span.runId, offset := position - cumulative, spanIndex }
      else lookupFrom position rest (cumulative + span.length) (spanIndex + 1)

def lookupPosition (index : PositionIndex) (position : Int) : Option PositionLookup :=
  if position < 0 ∨ index.totalLength ≤ position then none
  else lookupFrom position.toNat index.spans 0 0

end PositionIndex

namespace DocState

/-! ## Inserting a run -/

/-- The place of a run among its siblings: before the first that comes after it. -/
def siblingIndex (state : DocState) (node : RunNode) (siblings : List String) : Nat :=
  siblings.findIdx fun id => (state.nodes.get? id).any fun sibling => compareRuns node sibling < 0

/-- The tree with a run in its place, before the index is updated. -/
def withRun (state : DocState) (node : RunNode) : DocState :=
  let nodes := state.nodes.set node.id node
  let siblings := state.childIds node.parentId
  let index := siblingIndex { state with nodes } node siblings
  let children := state.children.set node.parentId
    (siblings.take index ++ node.id :: siblings.drop index)
  { state with
    nodes
    children := if (children.get? node.id).isSome then children else children.set node.id [] }

/-- Pass the spans of the subtrees of some siblings, one after the other. -/
def skipSubtrees (state : DocState) : List String → Nat → Nat
  | [], spanIndex => spanIndex
  | sibling :: rest, spanIndex =>
      skipSubtrees state rest (spanIndex + ((state.index.spans.drop spanIndex).takeWhile
        fun span => decide (span.runId ∈ state.collectSubtreeIds sibling)).length)

/-- The index of the span of a run that is in the tree and not in the spans yet. Below a
parent without a span it is the end. -/
def findSpanInsertIndex (state : DocState) (node : RunNode) : Nat :=
  let siblings := state.childIds node.parentId
  let before := siblings.take (siblings.findIdx fun id => id == node.id)
  if node.parentId = rootId then state.skipSubtrees before 0
  else
    match state.index.spans.findIdx? fun span => span.runId == node.parentId with
    | none => state.index.spans.length
    | some parent => state.skipSubtrees before (parent + 1)

def applyInsertRun (state : DocState) (node : RunNode) : DocState :=
  if (state.nodes.get? node.id).isSome then state
  else
    let grown := state.withRun node
    let spanIndex := grown.findSpanInsertIndex node
    { grown with
      index :=
        if node.deleted then state.index
        else {
          spans := state.index.spans.take spanIndex ++
            { runId := node.id, length := node.text.length } :: state.index.spans.drop spanIndex
          totalLength := state.index.totalLength + node.text.length } }

/-! ## Splitting and deleting -/

def applySplit (state : DocState) (runId : String) (offset : Int) : DocState :=
  match state.nodes.get? runId with
  | none => state
  | some node =>
      if offset ≤ 0 ∨ (node.text.length : Int) ≤ offset then state
      else
        let splitId := makeSplitId runId offset
        if (state.nodes.get? splitId).isSome then state
        else
          let left := { node with text := node.text.take offset.toNat }
          let right := { node with
            id := splitId
            text := node.text.drop offset.toNat
            parentId := runId }
          let originalChildren := state.childIds runId
          -- The right half inherits the children.
          let nodes := originalChildren.foldl
            (fun nodes childId =>
              match nodes.get? childId with
              | some child => nodes.set childId { child with parentId := splitId }
              | none => nodes)
            ((state.nodes.set runId left).set splitId right)
          let children := (state.children.set splitId originalChildren).set runId [splitId]
          let spans := state.index.spans
          if node.deleted then { state with nodes, children }
          else
            match spans.findIdx? fun span => span.runId == runId with
            | none => { state with nodes, children }
            | some spanIndex => {
                nodes
                children
                index := { state.index with
                  spans := spans.take spanIndex ++
                    { runId, length := offset.toNat } ::
                    { runId := splitId, length := node.text.length - offset.toNat } ::
                    spans.drop (spanIndex + 1) } }

def tombstoneRun (state : DocState) (runId : String) : DocState :=
  match state.nodes.get? runId with
  | none => state
  | some node =>
      if node.deleted then state
      else { state with
        nodes := state.nodes.set runId { node with deleted := true }
        index := {
          spans := state.index.spans.filter fun span => span.runId != runId
          totalLength := state.index.totalLength - node.text.length } }

def applyDeleteRange (state : DocState) (runId : String) (offset count : Int) : DocState :=
  match state.nodes.get? runId with
  | none => state
  | some node =>
      if node.deleted then state
      else
        let textLength : Int := node.text.length
        if offset < 0 ∨ count ≤ 0 ∨ textLength < offset + count then state
        else if offset = 0 ∧ count = textLength then state.tombstoneRun runId
        else if offset = 0 then (state.applySplit runId count).tombstoneRun runId
        else if offset + count = textLength then
          (state.applySplit runId offset).tombstoneRun (makeSplitId runId offset)
        else
          let rightId := makeSplitId runId offset
          ((state.applySplit runId offset).applySplit rightId count).tombstoneRun rightId

def applyExtendRun (state : DocState) (runId : String) (appendText : List UInt16)
    (hlc : HLCTimestamp) : DocState :=
  match state.nodes.get? runId with
  | none => state
  | some node =>
      if node.deleted then state
      else { state with
        nodes := state.nodes.set runId { node with text := node.text ++ appendText, hlc }
        index := {
          spans := state.index.spans.map fun span =>
            if span.runId = runId then { span with length := span.length + appendText.length }
            else span
          totalLength := state.index.totalLength + appendText.length } }

def applySetRun (state : DocState) (runId : String) (newNode : RunNode) : DocState :=
  match state.nodes.get? runId with
  | none => state
  | some existing =>
      if existing.deleted then state
      else { state with
        nodes := state.nodes.set runId { newNode with
          id := runId
          parentId := existing.parentId
          deleted := false }
        index := {
          spans := state.index.spans.map fun span =>
            if span.runId = runId then { span with length := newNode.text.length } else span
          totalLength := state.index.totalLength +
            ((newNode.text.length : Int) - existing.text.length) } }

/-! ## The reducer -/

def docReducer (state : DocState) : DocAction → DocState
  | .insertRun node => state.applyInsertRun node
  | .split runId offset => state.applySplit runId offset
  | .deleteRange runId offset count => state.applyDeleteRange runId offset count
  | .extendRun runId appendText hlc => state.applyExtendRun runId appendText hlc

/-- The tree with a tombstone for the missing parent of a run. -/
def withPlaceholder (state : DocState) (node : RunNode) : DocState :=
  if node.parentId ≠ rootId ∧ (state.nodes.get? node.parentId).isNone then
    state.applyInsertRun {
      id := node.parentId
      hlc := node.hlc
      actorId := node.actorId
      text := []
      parentId := rootId
      deleted := true }
  else state

/-- Apply the value of one `run:<runId>` field, where none is a tombstone. -/
def applyRunFieldUpdate (state : DocState) (runId : String) :
    Option RunNode → DocState × List DocAction
  | none =>
      match state.nodes.get? runId with
      | none => (state, [])
      | some node =>
          if node.deleted then (state, [])
          else
            let tombstone := .deleteRange runId 0 node.text.length
            (state.docReducer tombstone, [tombstone])
  | some newNode =>
      match state.nodes.get? runId with
      | some existing =>
          if existing.deleted then (state.docReducer (.insertRun newNode), [.insertRun newNode])
          else if newNode.text = existing.text ∧ newNode.hlc = existing.hlc ∧
              newNode.actorId = existing.actorId then (state, [])
          else if 0 < compareHlc existing.hlc newNode.hlc then (state, [])
          else (state.applySetRun runId newNode, [.extendRun runId newNode.text newNode.hlc])
      | none =>
          ((state.withPlaceholder newNode).docReducer (.insertRun newNode), [.insertRun newNode])

def applyRunFieldUpdates (state : DocState) (updates : List (String × Option RunNode)) :
    DocState × List DocAction :=
  updates.foldl
    (fun result update =>
      let next := result.1.applyRunFieldUpdate update.1 update.2
      (next.1, result.2 ++ next.2))
    (state, [])

end DocState

end Ebb.Text
