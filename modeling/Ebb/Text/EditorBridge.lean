import Ebb.Core.Action
import Ebb.Foundation.Splice
import Ebb.Text.RunTree
import Mathlib.Algebra.GroupWithZero.Nat

namespace Ebb.Text

/-! The bridge of `packages/codemirror/src/bridge.ts` between a CodeMirror view and a
`TextDocument`, with the document's side of it from `text-document.ts` and `wire.ts` of
`packages/schema/src/collaborative-text`. -/

/-! ## The editor -/

/-- A replacement, in positions of the text before it. -/
structure Change where
  start : Nat
  stop : Nat
  insert : List UInt16
deriving DecidableEq

/-- What the bridge reads of a view: the text, and the spans in the id map field. -/
structure EditorView where
  text : List UInt16
  idMap : List RunSpan
deriving DecidableEq

/-- The text CodeMirror leaves where a change is dispatched, if the dispatch does not
throw. -/
structure CodeMirror where
  change : List UInt16 → Change → Option (List UInt16)

/-- The text after a dispatch that may come without a change. -/
def CodeMirror.dispatch (editor : CodeMirror) (text : List UInt16) :
    Option Change → Option (List UInt16)
  | none => some text
  | some change => editor.change text change

def carriageReturn : UInt16 := 13

/-- CodeMirror replaces a range within the text. It reads a carriage return as a line
break of its own, so only a text without one is kept as it is. -/
def CodeMirror.Documented (editor : CodeMirror) : Prop :=
  ∀ (text : List UInt16) (change : Change), change.start ≤ change.stop →
    change.stop ≤ text.length → carriageReturn ∉ change.insert →
      editor.change text change = some (splice text change.start change.stop change.insert)

def rootPlaceholderSpan : RunSpan where
  runId := rootId
  length := 0

def ensureRootSpan (spans : List RunSpan) : List RunSpan :=
  if spans.length = 0 then [rootPlaceholderSpan] else spans

structure RunRange where
  start : Nat
  stop : Nat
deriving DecidableEq

def findRangeFrom (runId : String) : List RunSpan → Nat → Option RunRange
  | [], _ => none
  | span :: rest, cumulative =>
      if span.runId = runId then some { start := cumulative, stop := cumulative + span.length }
      else findRangeFrom runId rest (cumulative + span.length)

def findRunRange (spans : List RunSpan) (runId : String) : Option RunRange :=
  findRangeFrom runId spans 0

structure SpanLookup where
  runId : String
  runOffset : Nat
  spanIndex : Nat
  spanLength : Nat
deriving DecidableEq

def lookupSpansFrom (position : Nat) : List RunSpan → Nat → Nat → Option SpanLookup
  | [], _, _ => none
  | span :: rest, cumulative, spanIndex =>
      if position < cumulative + span.length then
        some {
          runId := span.runId
          runOffset := position - cumulative
          spanIndex
          spanLength := span.length }
      else lookupSpansFrom position rest (cumulative + span.length) (spanIndex + 1)

def lookupPositionFromSpans (spans : List RunSpan) (position : Nat) : Option SpanLookup :=
  lookupSpansFrom position spans 0 0

/-! ## Events of the document -/

inductive UpdateKind where
  | insert
  | extend
  | tombstone
deriving DecidableEq

structure AppliedUpdate where
  runId : String
  kind : UpdateKind
deriving DecidableEq

def appliedToEvent : DocAction → Option AppliedUpdate
  | .insertRun node => some { runId := node.id, kind := .insert }
  | .extendRun runId _ _ => some { runId, kind := .extend }
  | .deleteRange runId _ _ => some { runId, kind := .tombstone }
  | .split _ _ => none

/-- The change the bridge makes for an event, from the spans in the id map field and the
document as it is by then. -/
def cmChanges (idMap : List RunSpan) (doc : DocState) (isLocal : Bool) (event : AppliedUpdate) :
    Option Change :=
  match event.kind with
  | .tombstone =>
      match findRunRange idMap event.runId with
      | some range =>
          if isLocal then none else some { start := range.start, stop := range.stop, insert := [] }
      | none => none
  | .extend =>
      match findRunRange idMap event.runId, doc.nodes.get? event.runId with
      | some range, some node =>
          if node.deleted || isLocal then none
          else some { start := range.start, stop := range.stop, insert := node.text }
      | _, _ => none
  | .insert =>
      match doc.nodes.get? event.runId with
      | some node =>
          if node.deleted || isLocal then none
          else
            let insertAt := ((findRunRange idMap node.parentId).map RunRange.stop).getD 0
            some { start := insertAt, stop := insertAt, insert := node.text }
      | none => none

/-- One dispatch for an event. When it throws, the document reports the error and goes on,
and the view stays as it was. -/
def applyDocUpdateToCM (editor : CodeMirror) (doc : DocState) (isLocal : Bool)
    (view : EditorView) (event : AppliedUpdate) : EditorView :=
  match editor.dispatch view.text (cmChanges view.idMap doc isLocal event) with
  | some text => { text, idMap := ensureRootSpan doc.index.spans }
  | none => view

/-! ## Actions on the wire -/

inductive RunValue where
  /-- The value `null`: a tombstone. -/
  | null
  | run (node : RunNode)
  /-- A value that is no object with an `id`. -/
  | other
deriving DecidableEq

def docContentField : String := "content"

/-- The runs in a `content` map; what is no map or no leaf is ignored. -/
def parseContentField : Option (FieldValue RunValue) → List (String × Option RunNode)
  | some (.map entries) => entries.filterMap fun entry =>
      match entry.2 with
      | .leaf leaf =>
          match leaf.value with
          | .null => some (entry.1, none)
          | .run node => some (entry.1, some node)
          | .other => none
      | .map _ => none
  | _ => []

def readRunFields (update : Update RunValue) : List (String × Option RunNode) :=
  parseContentField ((readFields update).lookup docContentField)

def applyWireUpdate (docType : String) (result : DocState × List DocAction)
    (update : Update RunValue) : DocState × List DocAction :=
  if update.subjectType ≠ docType then result
  else
    let runs := readRunFields update
    if runs.length = 0 then result
    else
      let next := result.1.applyRunFieldUpdates runs
      (next.1, result.2 ++ next.2)

def applyWireActions (state : DocState) (actions : List (Action RunValue)) (docType : String) :
    DocState × List DocAction :=
  actions.foldl (fun result action => action.updates.foldl (applyWireUpdate docType) result)
    (state, [])

/-! ## The document

The Actions it queues for the server are left out: nothing here reads them. -/

structure LocalHlcState where
  l : Nat
  c : Nat
deriving DecidableEq

structure TextDocument where
  actorId : String
  docType : String
  state : DocState
  localHlcState : LocalHlcState
  /-- How often the wall clock was read. -/
  readings : Nat

/-- The low bits of the shifted time are zero, so the masked counter is added. -/
def LocalHlcState.packed (state : LocalHlcState) : HLCTimestamp :=
  state.l * 2 ^ 16 + state.c % 2 ^ 16

def advanceLocalHlc (state : LocalHlcState) (now : Nat) : LocalHlcState :=
  if state.l < now then { l := now, c := 0 } else { state with c := state.c + 1 }

def diffRunMap (preState postState : DocState) : List (String × Option RunNode) :=
  (preState.nodes.entries.filterMap fun (id, pre) =>
    if id = rootId then none
    else
      match postState.nodes.get? id with
      | none => some (id, none)
      | some post =>
          if post.deleted then some (id, none)
          else if post.text ≠ pre.text ∨ post.hlc ≠ pre.hlc ∨ post.actorId ≠ pre.actorId then
            some (id, some post)
          else none) ++
  postState.nodes.entries.filterMap fun (id, post) =>
    if (preState.nodes.get? id).isSome ∨ id = rootId then none
    else if post.deleted then none
    else some (id, some post)

/-- The event of a local edit, if the edit changed a run. -/
def editEvent (pre post : DocState) (runId : String) (kind : UpdateKind) : Option AppliedUpdate :=
  if (diffRunMap pre post).length = 0 then none else some { runId, kind }

structure LocalInsertOptions where
  afterRun : Option String
  splitParentAt : Option Int
  hlc : Option HLCTimestamp

namespace TextDocument

/-- The document after its clock advanced, with the wall clock's readings in their order. -/
def advance (doc : TextDocument) (now : Nat → Nat) : TextDocument :=
  { doc with
    localHlcState := advanceLocalHlc doc.localHlcState (now doc.readings)
    readings := doc.readings + 1 }

def findLastVisibleRunId (doc : TextDocument) : Option String :=
  doc.state.index.spans.getLast?.map RunSpan.runId

def newRun (doc : TextDocument) (now : Nat → Nat) (text : List UInt16) (parentId : String)
    (hlc : Option HLCTimestamp) : RunNode :=
  let finalHlc := hlc.getD (doc.advance now).localHlcState.packed
  { id := toString finalHlc ++ ":" ++ doc.actorId
    hlc := finalHlc
    actorId := doc.actorId
    text
    parentId
    deleted := false }

/-- The state an insert starts from: its parent split where the options say so, if they
name a place inside it. -/
def splitParent (doc : TextDocument) (parentId : String) : Option Int → Option DocState
  | none => some doc.state
  | some splitParentAt =>
      match doc.state.nodes.get? parentId with
      | none => none
      | some parentNode =>
          if 1 ≤ splitParentAt ∧ splitParentAt < parentNode.text.length then
            some (doc.state.docReducer (.split parentId splitParentAt))
          else none

def localInsert (doc : TextDocument) (now : Nat → Nat) (text : List UInt16)
    (options : LocalInsertOptions) : TextDocument × Option AppliedUpdate :=
  let parentId := (options.afterRun.or doc.findLastVisibleRunId).getD rootId
  let node := doc.newRun now text parentId options.hlc
  match doc.splitParent parentId options.splitParentAt with
  | none => (doc.advance now, none)
  | some next =>
      let state := next.docReducer (.insertRun node)
      ({ doc.advance now with state }, editEvent doc.state state node.id .insert)

def localDelete (doc : TextDocument) (now : Nat → Nat) (runId : String) (offset count : Int) :
    TextDocument × Option AppliedUpdate :=
  match doc.state.nodes.get? runId with
  | none => (doc, none)
  | some node =>
      if node.deleted then (doc, none)
      else if offset < 0 ∨ count ≤ 0 ∨ (node.text.length : Int) < offset + count then (doc, none)
      else
        let state := doc.state.docReducer (.deleteRange runId offset count)
        ({ doc.advance now with state }, editEvent doc.state state runId .tombstone)

def localExtend (doc : TextDocument) (now : Nat → Nat) (runId : String)
    (appendText : List UInt16) (hlc : Option HLCTimestamp) : TextDocument × Option AppliedUpdate :=
  if appendText.length = 0 then (doc, none)
  else
    match doc.state.nodes.get? runId with
    | none => (doc, none)
    | some node =>
        if node.deleted then (doc, none)
        else
          let finalHlc := hlc.getD (doc.advance now).localHlcState.packed
          let state := doc.state.docReducer (.extendRun runId appendText finalHlc)
          ({ doc.advance now with state }, editEvent doc.state state runId .extend)

end TextDocument

/-- A view and a document with a bridge between them. -/
structure Mounted where
  view : EditorView
  doc : TextDocument
  /-- Whether the extension and the mount share a tracker of local edits. -/
  localEdit : Bool

namespace Mounted

def mountEditorBridge (editor : CodeMirror) (view : EditorView) (doc : TextDocument)
    (localEdit : Bool) : Option Mounted :=
  let initialText := doc.state.reconstruct
  let idMap := ensureRootSpan doc.state.index.spans
  if view.text ≠ initialText then
    (editor.change view.text { start := 0, stop := view.text.length, insert := initialText }).map
      fun text => { view := { text, idMap }, doc, localEdit }
  else some { view := { view with idMap }, doc, localEdit }

/-- The document reaches its final state before the bridge hears the first event. -/
def applyActions (editor : CodeMirror) (mounted : Mounted) (actions : List (Action RunValue)) :
    Mounted :=
  if actions.length = 0 then mounted
  else
    let (post, applied) := applyWireActions mounted.doc.state actions mounted.doc.docType
    { mounted with
      view := (applied.filterMap appliedToEvent).foldl (applyDocUpdateToCM editor post false)
        mounted.view
      doc := { mounted.doc with state := post } }

/-! ### Local edits -/

/-- A local edit, whose event the bridge takes for a remote one unless a tracker says it
is its own. -/
def afterEdit (editor : CodeMirror) (mounted : Mounted)
    (edited : TextDocument × Option AppliedUpdate) : Mounted where
  view :=
    match edited.2 with
    | some event =>
        applyDocUpdateToCM editor edited.1.state mounted.localEdit mounted.view event
    | none => mounted.view
  doc := edited.1
  localEdit := mounted.localEdit

/-- One call per run of a deleted range. Every round passes a position, so the fuel is the
length of the range. -/
def deleteRuns (editor : CodeMirror) (now : Nat → Nat) (spans : List RunSpan) (stop : Nat) :
    Nat → Nat → Mounted → Mounted
  | 0, _, mounted => mounted
  | fuel + 1, position, mounted =>
      if position < stop then
        match lookupPositionFromSpans spans position with
        | none => deleteRuns editor now spans stop fuel (position + 1) mounted
        | some lookup =>
            let count := min (lookup.spanLength - lookup.runOffset) (stop - position)
            deleteRuns editor now spans stop fuel (position + count)
              (mounted.afterEdit editor
                (mounted.doc.localDelete now lookup.runId lookup.runOffset count))
      else mounted

/-- Insert below the root, or after a run that is split first where an offset is given. -/
def insertAfter (editor : CodeMirror) (now : Nat → Nat) (mounted : Mounted) (text : List UInt16)
    (afterRun : String) (splitParentAt : Option Int) : Mounted :=
  mounted.afterEdit editor (mounted.doc.localInsert now text {
    afterRun := some afterRun
    splitParentAt
    hlc := none })

def insertText (editor : CodeMirror) (now : Nat → Nat) (spans : List RunSpan) (start : Nat)
    (text : List UInt16) (mounted : Mounted) : Mounted :=
  if text.length = 0 then mounted
  else if start = 0 then mounted.insertAfter editor now text rootId none
  else
    match lookupPositionFromSpans spans (start - 1) with
    | none => mounted.insertAfter editor now text rootId none
    | some lookup =>
        match mounted.doc.state.nodes.get? lookup.runId with
        | none => mounted.insertAfter editor now text rootId none
        | some parentRun =>
            if parentRun.deleted then mounted.insertAfter editor now text rootId none
            else
              let isAtEndOfRun := (lookup.runOffset : Int) = parentRun.text.length - 1
              let isSamePeer := parentRun.actorId = mounted.doc.actorId
              let isLeaf := (mounted.doc.state.childIds parentRun.id).length = 0
              if isAtEndOfRun ∧ isSamePeer ∧ isLeaf then
                mounted.afterEdit editor (mounted.doc.localExtend now parentRun.id text none)
              else
                mounted.insertAfter editor now text parentRun.id
                  (if isAtEndOfRun then none else some (lookup.runOffset + 1))

def handleChange (editor : CodeMirror) (now : Nat → Nat) (spans : List RunSpan)
    (mounted : Mounted) (change : Change) : Mounted :=
  insertText editor now spans change.start change.insert
    (deleteRuns editor now spans change.stop (change.stop - change.start) change.start mounted)

/-- The update listener. The spans are read once, before the first change. -/
def updateListener (editor : CodeMirror) (now : Nat → Nat) (changes : List Change)
    (mounted : Mounted) : Mounted :=
  changes.foldl (handleChange editor now mounted.view.idMap) mounted

/-- The text from a position on after changes, which are in positions of the text before
them. -/
def changedText (text : List UInt16) : Nat → List Change → List UInt16
  | position, [] => text.drop position
  | position, change :: rest =>
      (text.drop position).take (change.start - position) ++
        (change.insert ++ changedText text change.stop rest)

/-- A transaction of the user's: the view has its new text when the listener runs. -/
def dispatch (editor : CodeMirror) (now : Nat → Nat) (changes : List Change) (mounted : Mounted) :
    Mounted :=
  updateListener editor now changes
    { mounted with view := { mounted.view with text := changedText mounted.view.text 0 changes } }

end Mounted

end Ebb.Text
