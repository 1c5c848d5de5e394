import Ebb.Text.RemoteEdits
import Ebb.Text.VisiblePieces

namespace Ebb.Text

/-! The document follows a transaction of the editor as long as no change looks up a run that
an earlier change of the transaction cut, the ids of new runs are new, and a new run is newer
than the siblings that show text. -/

/-! ## Looking up a position -/

def Finds (pieces : PieceTable String UInt16) (position : Nat) (lookup : SpanLookup) : Prop :=
  ∃ before piece after, pieces = before ++ (lookup.runId, piece) :: after ∧
    lookup.runOffset < piece.length ∧
      position = (PieceTable.text before).length + lookup.runOffset ∧
        lookup.spanLength = piece.length

theorem Finds.at {pieces : PieceTable String UInt16} {position : Nat} {lookup : SpanLookup}
    (finds : Finds pieces position lookup) :
    PieceTable.At pieces position lookup.runId lookup.runOffset := by
  rcases finds with ⟨before, piece, after, whole, inside, same, _⟩
  exact ⟨before, piece, after, whole, inside, same⟩

def pieceSpan (piece : String × List UInt16) : RunSpan where
  runId := piece.1
  length := piece.2.length

theorem lookupSpansFrom_pieces {pieces : PieceTable String UInt16} {position : Nat}
    (cumulative spanIndex : Nat) (inside : position < (PieceTable.text pieces).length) :
    ∃ lookup, lookupSpansFrom (cumulative + position) (pieces.map pieceSpan) cumulative spanIndex =
      some lookup ∧ Finds pieces position lookup := by
  induction pieces generalizing position cumulative spanIndex with
  | nil => cases inside
  | cons head rest induction =>
      rw [PieceTable.text_cons, List.length_append] at inside
      rw [List.map_cons, lookupSpansFrom]
      split
      · next here =>
          have within : position < head.2.length := Nat.lt_of_add_lt_add_left here
          refine ⟨_, rfl, [], head.2, rest, rfl, ?_, ?_, rfl⟩
          · dsimp only
            omega
          · change position = 0 + (cumulative + position - cumulative)
            omega
      · next beyond =>
          have passed : head.2.length ≤ position :=
            Nat.le_of_add_le_add_left (Nat.le_of_not_lt beyond)
          have later := @induction (position - head.2.length) (cumulative + head.2.length)
            (spanIndex + 1) (by omega)
          rcases later with ⟨lookup, found, before, piece, after, whole, within, same, length⟩
          rw [show cumulative + head.2.length + (position - head.2.length) =
            cumulative + position by omega] at found
          refine ⟨lookup, found, head :: before, piece, after, ?_, within, ?_, length⟩
          · rw [whole, List.cons_append]
          · rw [PieceTable.text_cons, List.length_append]
            omega

namespace DocState

theorem Sound.lookup {state : DocState} (sound : Sound state) {position : Nat}
    (inside : position < (PieceTable.text state.pieces).length) :
    ∃ lookup, lookupPositionFromSpans (ensureRootSpan state.index.spans) position = some lookup ∧
      Finds state.pieces position lookup := by
  have listed : state.pieces ≠ [] := by
    intro none
    rw [none] at inside
    cases inside
  have spans : ensureRootSpan state.index.spans = state.pieces.map pieceSpan := by
    rw [ensureRootSpan, if_neg ?_, sound.spans_pieces]
    · rfl
    · rw [sound.spans_pieces, List.length_map, List.length_eq_zero_iff]
      exact listed
  have found := @lookupSpansFrom_pieces state.pieces position 0 0 inside
  rw [Nat.zero_add, ← spans] at found
  exact found

end DocState

/-! ## Conditions -/

/-- The run a lookup names is live and as long as its span: nothing cut it since. -/
def LookupMeets (state : DocState) (lookup : SpanLookup) : Prop :=
  ∃ node, state.nodes.get? lookup.runId = some node ∧ node.deleted = false ∧
    node.text.length = lookup.spanLength

/-- The id of a new run is new, and the siblings before it show no text. -/
def NewRunMeets (state : DocState) (node : RunNode) : Prop :=
  state.nodes.get? node.id = none ∧ state.LeadsSiblings node

namespace Mounted

section Conditions

variable (editor : CodeMirror) (now : Nat → Nat) (spans : List RunSpan)

/-- Every round of a deletion finds its run uncut, and the ids of its halves are new. -/
def DeletesMeet (stop : Nat) : Nat → Nat → Mounted → Prop
  | 0, _, _ => True
  | fuel + 1, position, mounted =>
      position < stop → ∀ lookup, lookupPositionFromSpans spans position = some lookup →
        let count := min (lookup.spanLength - lookup.runOffset) (stop - position)
        LookupMeets mounted.doc.state lookup ∧
          mounted.doc.state.SplitIdsFresh lookup.runId lookup.runOffset count lookup.spanLength ∧
          DeletesMeet stop fuel (position + count) (mounted.afterEdit editor
            (mounted.doc.localDelete now lookup.runId lookup.runOffset count))

/-- The new run of an insert leads its siblings, where the insert does not extend a run. -/
def InsertionMeets (start : Nat) (text : List UInt16) (mounted : Mounted) : Prop :=
  let state := mounted.doc.state
  if start = 0 then NewRunMeets state (mounted.doc.newRun now text rootId none)
  else
    ∀ lookup parentRun, lookupPositionFromSpans spans (start - 1) = some lookup →
      state.nodes.get? lookup.runId = some parentRun →
        let node := mounted.doc.newRun now text parentRun.id none
        if lookup.runOffset + 1 = parentRun.text.length then
          parentRun.actorId = mounted.doc.actorId ∧ state.childIds parentRun.id = [] ∨
            NewRunMeets state node
        else
          let offset : Int := lookup.runOffset + 1
          state.nodes.get? (makeSplitId parentRun.id offset) = none ∧
            NewRunMeets (state.applySplit parentRun.id offset) node

/-- A change meets the conditions: the runs it looks up are uncut when it begins, and its
new runs have their ids and their places. -/
def ChangeMeets (mounted : Mounted) (change : Change) : Prop :=
  let fuel := change.stop - change.start
  DeletesMeet editor now spans change.stop fuel change.start mounted ∧
    (change.insert ≠ [] →
      (0 < change.start → ∀ lookup,
        lookupPositionFromSpans spans (change.start - 1) = some lookup →
          LookupMeets mounted.doc.state lookup) ∧
      InsertionMeets now spans change.start change.insert
        (deleteRuns editor now spans change.stop fuel change.start mounted))

def ChangesMeet : Mounted → List Change → Prop
  | _, [] => True
  | mounted, change :: rest =>
      ChangeMeets editor now spans mounted change ∧
        ChangesMeet (handleChange editor now spans mounted change) rest

end Conditions

/-! ## Events of local edits -/

theorem cmChanges_local (idMap : List RunSpan) (doc : DocState) (event : AppliedUpdate) :
    cmChanges idMap doc true event = none := by
  rw [cmChanges]
  split
  · split
    · rfl
    · rfl
  · split
    · rw [Bool.or_true, if_pos rfl]
    · rfl
  · split
    · rw [Bool.or_true, if_pos rfl]
    · rfl

theorem afterEdit_eq (editor : CodeMirror) {mounted : Mounted} (tracked : mounted.localEdit = true)
    {edited : TextDocument × Option AppliedUpdate} {event : AppliedUpdate}
    (reported : edited.2 = some event) :
    mounted.afterEdit editor edited = {
      view := {
        text := mounted.view.text
        idMap := ensureRootSpan edited.1.state.index.spans }
      doc := edited.1
      localEdit := true } := by
  rw [afterEdit, reported, tracked]
  dsimp only
  rw [applyDocUpdateToCM, cmChanges_local]
  rfl

variable {pre post : DocState}

theorem editEvent_of_ne_nil (changed : diffRunMap pre post ≠ []) (runId : String)
    (kind : UpdateKind) :
    editEvent pre post runId kind = some { runId, kind } := by
  rw [editEvent, if_neg fun none => changed (List.length_eq_zero_iff.mp none)]

theorem editEvent_of_changed {id : String} {node : RunNode} (found : pre.nodes.get? id = some node)
    (notRoot : id ≠ rootId)
    (changed : ∀ next, post.nodes.get? id = some next → next.deleted = false →
      next.text ≠ node.text)
    (runId : String) (kind : UpdateKind) :
    editEvent pre post runId kind = some { runId, kind } := by
  have stored : (id, node) ∈ pre.nodes.entries :=
    (OrderedMap.get?_eq_some_iff pre.nodes id node).mp found
  have entry : ∃ value : Option RunNode, (id, value) ∈ diffRunMap pre post := by
    cases reached : post.nodes.get? id with
    | none =>
        refine ⟨none, List.mem_append_left _ (List.mem_filterMap.mpr ⟨_, stored, ?_⟩)⟩
        dsimp only
        rw [if_neg notRoot, reached]
    | some next =>
        by_cases dead : next.deleted = true
        · refine ⟨none, List.mem_append_left _ (List.mem_filterMap.mpr ⟨_, stored, ?_⟩)⟩
          dsimp only
          rw [if_neg notRoot, reached]
          exact if_pos dead
        · refine ⟨some next, List.mem_append_left _ (List.mem_filterMap.mpr ⟨_, stored, ?_⟩)⟩
          have differs := changed next reached (Bool.not_eq_true _ ▸ dead)
          dsimp only
          rw [if_neg notRoot, reached]
          dsimp only
          rw [if_neg dead, if_pos (.inl differs)]
  rcases entry with ⟨value, member⟩
  exact editEvent_of_ne_nil (List.ne_nil_of_mem member) runId kind

theorem editEvent_of_new {id : String} {node : RunNode} (absent : pre.nodes.get? id = none)
    (notRoot : id ≠ rootId) (found : post.nodes.get? id = some node) (live : node.deleted = false)
    (runId : String) (kind : UpdateKind) : editEvent pre post runId kind = some
      { runId, kind } := by
  have stored : (id, node) ∈ post.nodes.entries :=
    (OrderedMap.get?_eq_some_iff post.nodes id node).mp found
  have member : (id, some node) ∈ diffRunMap pre post := by
    refine List.mem_append_right _ (List.mem_filterMap.mpr ⟨_, stored, ?_⟩)
    dsimp only
    rw [absent, live, if_neg (by simpa using notRoot)]
    rfl
  exact editEvent_of_ne_nil (List.ne_nil_of_mem member) runId kind

/-! ## Part of the way through a transaction -/

/-- The document is aligned with the old one and its id map is fresh; `newText` is what the
editor shows all along. -/
structure InStep (old : DocState) (newText : List UInt16) (start cursor stop : Nat)
    (done : List UInt16) (mounted : Mounted) : Prop where
  sound : mounted.doc.state.Sound
  aligned : PieceTable.Aligned old.pieces mounted.doc.state.pieces start cursor stop done
  stored : ∀ id ∈ PieceTable.keys old.pieces, (mounted.doc.state.nodes.get? id).isSome = true
  text : mounted.view.text = newText
  idMap : mounted.view.idMap = ensureRootSpan mounted.doc.state.index.spans
  tracked : mounted.localEdit = true

section Steps

variable {editor : CodeMirror} {now : Nat → Nat} {old : DocState} {newText done : List UInt16}
  {start cursor stop : Nat} {mounted : Mounted}

variable {state : DocState} {runId : String} {text : List UInt16} {offset count : Nat}
  {before tail after : PieceTable String UInt16} {node : RunNode}
  {table next : PieceTable String UInt16} {parent : RunNode}

theorem nodup_pieces (sound : state.Sound) : (PieceTable.keys state.pieces).Nodup := by
  rcases sound with ⟨tree, grown, _⟩
  exact grown.rooted.nodup_pieces

theorem mem_pieces_of_meets (sound : state.Sound) {position : Nat} {lookup : SpanLookup}
    (finds : Finds old.pieces position lookup) (oldSound : old.Sound)
    (meets : LookupMeets state lookup) :
    ∃ node, state.nodes.get? lookup.runId = some node ∧ node.deleted = false ∧
      node.text.length = lookup.spanLength ∧ (lookup.runId, node.text) ∈ state.pieces := by
  rcases meets with ⟨node, found, live, length⟩
  rcases sound with ⟨tree, grown, _⟩
  rcases oldSound with ⟨oldTree, oldGrown, _⟩
  rcases finds with ⟨before, piece, after, whole, _⟩
  have listed : (lookup.runId, piece) ∈ old.pieces := by
    rw [whole]
    exact List.mem_append_right _ List.mem_cons_self
  exact ⟨node, found, live, length,
    grown.mem_pieces found live (oldGrown.rooted.node_of_mem_pieces listed).1⟩

/-- The piece a cut run keeps: nothing where it is cut at its start. -/
def keptPiece (runId : String) (text : List UInt16) (offset : Nat) : PieceTable String UInt16 :=
  if offset = 0 then [] else [(runId, text.take offset)]

theorem text_keptPiece (runId : String) (text : List UInt16) (offset : Nat) :
    PieceTable.text (keptPiece runId text offset) = text.take offset := by
  rw [keptPiece]
  split
  · next start =>
      rw [start]
      rfl
  · exact List.append_nil _

theorem mem_keptPiece {key : String} {piece : List UInt16}
    (member : (key, piece) ∈ keptPiece runId text offset) :
    key = runId ∧ piece = text.take offset ∧
      keptPiece runId text offset = [(runId, text.take offset)] := by
  rw [keptPiece] at member ⊢
  split at member
  · cases member
  · next later =>
      rw [if_neg later]
      cases List.mem_singleton.mp member
      exact ⟨rfl, rfl, rfl⟩

/-- The pieces after a deletion, around the run it cuts. -/
structure Deleted (state post : DocState) (runId : String) (text : List UInt16)
    (offset count : Nat) (before tail after : PieceTable String UInt16) : Prop where
  whole : state.pieces = before ++ ([(runId, text)] ++ after)
  replaced : post.pieces = before ++ ((keptPiece runId text offset ++ tail) ++ after)
  text : PieceTable.text tail = text.drop (offset + count)
  fresh : ∀ piece ∈ tail, state.nodes.get? piece.1 = none

theorem deleted_of_meets (sound : state.Sound) (member : (runId, text) ∈ state.pieces)
    (positive : 0 < count) (inside : offset + count ≤ text.length)
    (fresh : state.SplitIdsFresh runId offset count text.length) :
    ∃ before tail after,
      Deleted state (state.applyDeleteRange runId offset count) runId text offset count before tail
        after := by
  rcases List.append_of_mem member with ⟨before, after, whole⟩
  rcases DocState.pieces_applyDeleteRange sound whole positive inside fresh with
    ⟨tail, pieces, tailText, tailFresh⟩
  refine ⟨before, tail, after, whole, ?_, tailText, tailFresh⟩
  rw [pieces, List.append_assoc]
  rfl

theorem Deleted.cut {post : DocState} {left : List UInt16}
    (deleted : Deleted state post runId text offset count before tail after) (sound : state.Sound)
    (stored : (state.nodes.get? runId).isSome = true) (member : (runId, left) ∈ post.pieces)
    : left = text.take offset ∧ 0 < offset := by
  have nodup := nodup_pieces sound
  rw [deleted.whole, PieceTable.keys_append, List.nodup_append, PieceTable.keys_append,
    List.nodup_append] at nodup
  rw [deleted.replaced, List.mem_append, List.mem_append, List.mem_append] at member
  rcases member with inBefore | (inKept | inTail) | inAfter
  · exact absurd rfl (nodup.2.2 runId (PieceTable.mem_keys inBefore) runId
      (List.mem_append_left _ List.mem_cons_self))
  · refine ⟨(mem_keptPiece inKept).2.1, Nat.pos_of_ne_zero fun start => ?_⟩
    rw [keptPiece, if_pos start] at inKept
    cases inKept
  · rw [deleted.fresh _ inTail] at stored
    cases stored
  · exact absurd rfl (nodup.2.1.2.2 runId List.mem_cons_self runId (PieceTable.mem_keys inAfter))

theorem Deleted.aligned {post : DocState}
    (deleted : Deleted state post runId text offset count before tail after)
    (aligned : PieceTable.Aligned old.pieces state.pieces start cursor stop done)
    (nodup : (PieceTable.keys post.pieces).Nodup)
    (stored : ∀ id ∈ PieceTable.keys old.pieces, (state.nodes.get? id).isSome = true)
    (positive : 0 < count) (inside : offset + count ≤ text.length)
    (place : (PieceTable.text before).length + offset = done.length) :
    PieceTable.Aligned old.pieces post.pieces start cursor (stop + count) done := by
  have size : ((text.drop offset).take count).length = count := by
    rw [List.length_take, List.length_drop]
    omega
  have left : (text.take offset).length = offset := by
    rw [List.length_take]
    omega
  have middleText : PieceTable.text [(runId, text)] =
      text.take offset ++ ((text.drop offset).take count ++ text.drop (offset + count)) := by
    rw [← List.drop_drop, List.take_append_drop, List.take_append_drop]
    exact List.append_nil _
  have replacementText : PieceTable.text (keptPiece runId text offset ++ tail) =
      text.take offset ++ ([] ++ text.drop (offset + count)) := by
    rw [PieceTable.text_append, text_keptPiece, deleted.text, List.nil_append]
  have replaced := aligned.replace deleted.whole deleted.replaced nodup middleText replacementText
    (by rw [left]; exact place)
    (by
      intro position key place _ here piece listed within
      rcases List.mem_append.mp listed with inKept | inTail
      · rcases mem_keptPiece inKept with ⟨rfl, rfl, kept⟩
        rw [List.length_take] at within
        exact ⟨by omega, text, [], tail, rfl, by rw [kept]; rfl, by omega⟩
      · have old := stored key here.mem_keys
        rw [deleted.fresh _ inTail] at old
        cases old)
  rw [size, List.append_nil] at replaced
  exact replaced

theorem localDelete_eq {doc : TextDocument} (found : doc.state.nodes.get? runId = some node)
    (live : node.deleted = false) (positive : 0 < count)
    (inside : offset + count ≤ node.text.length) :
    doc.localDelete now runId offset count =
      ({ doc.advance now with state := doc.state.applyDeleteRange runId offset count },
        editEvent doc.state (doc.state.applyDeleteRange runId offset count) runId .tombstone) := by
  rw [TextDocument.localDelete, found]
  dsimp only
  rw [live, if_neg Bool.false_ne_true, if_neg (by omega)]
  rfl

theorem InStep.delete (inStep : InStep old newText start cursor stop done mounted)
    (oldSound : old.Sound) {lookup : SpanLookup} (finds : Finds old.pieces stop lookup)
    (meets : LookupMeets mounted.doc.state lookup) {count : Nat} (positive : 0 < count)
    (inside : lookup.runOffset + count ≤ lookup.spanLength)
    (fresh : mounted.doc.state.SplitIdsFresh lookup.runId lookup.runOffset count
      lookup.spanLength) :
    InStep old newText start cursor (stop + count) done
      (mounted.afterEdit editor
        (mounted.doc.localDelete now lookup.runId lookup.runOffset count)) := by
  have sound := inStep.sound
  rcases mem_pieces_of_meets sound finds oldSound meets with ⟨node, found, live, length, member⟩
  rw [← length] at inside fresh
  have stored : (mounted.doc.state.nodes.get? lookup.runId).isSome = true := by
    rw [found]
    rfl
  have postSound := sound.deleteRange lookup.runId lookup.runOffset count
  rcases deleted_of_meets sound member positive inside fresh with ⟨before, tail, after, deleted⟩
  have within : lookup.runOffset < node.text.length := by omega
  rcases inStep.aligned.later stop _ _ (Nat.le_refl stop) finds.at ⟨node.text, member, within⟩ with
    ⟨place, there, same⟩
  have atPlace := (there.split (nodup_pieces sound) deleted.whole).2
  have reported : (mounted.doc.localDelete now lookup.runId lookup.runOffset count).2 =
      some { runId := lookup.runId, kind := .tombstone } := by
    rw [localDelete_eq found live positive inside]
    apply editEvent_of_changed found
    · rcases sound with ⟨tree, grown, _⟩
      exact (grown.rooted.node_of_mem_pieces member).1
    · intro next reached nextLive unchanged
      rcases postSound with ⟨tree, grown, _⟩
      rcases sound with ⟨oldTree, oldGrown, oldLists⟩
      have left := deleted.cut ⟨oldTree, oldGrown, oldLists⟩ stored
        (grown.mem_pieces reached nextLive (oldGrown.rooted.node_of_mem_pieces member).1)
      have size := congrArg List.length (unchanged.symm.trans left.1)
      rw [List.length_take] at size
      omega
  rw [afterEdit_eq editor inStep.tracked reported, localDelete_eq found live positive inside]
  constructor
  case sound => exact postSound
  case aligned =>
    exact deleted.aligned inStep.aligned (nodup_pieces postSound) inStep.stored positive inside
      (by omega)
  case stored =>
    intro id listed
    exact DocState.stored_applyDeleteRange (inStep.stored id listed) _ _ _
  case text => exact inStep.text
  case idMap => rfl
  case tracked => rfl

/-- The run of an earlier lookup still reaches it; if the run was cut, it has children. -/
def StillReaches (state : DocState) (lookup : SpanLookup) : Prop :=
  ∃ text, (lookup.runId, text) ∈ state.pieces ∧ lookup.runOffset < text.length ∧
    (text.length = lookup.spanLength ∨ state.childIds lookup.runId ≠ [])

theorem Deleted.stillReaches (sound : state.Sound) (oldSound : old.Sound)
    {lookup parent : SpanLookup} {position : Nat} (earlier : position < stop)
    (finds : Finds old.pieces stop lookup) (findsParent : Finds old.pieces position parent)
    (found : state.nodes.get? lookup.runId = some node) (live : node.deleted = false)
    (positive : 0 < count) (inside : lookup.runOffset + count ≤ node.text.length)
    (fresh : state.SplitIdsFresh lookup.runId lookup.runOffset count node.text.length)
    (deleted : Deleted state (state.applyDeleteRange lookup.runId lookup.runOffset count)
      lookup.runId node.text lookup.runOffset count before tail after)
    (reaches : StillReaches state parent) :
    StillReaches (state.applyDeleteRange lookup.runId lookup.runOffset count) parent := by
  rcases reaches with ⟨text, member, within, uncut⟩
  by_cases same : parent.runId = lookup.runId
  · rcases finds with ⟨first, piece, second, whole, _, stops, _⟩
    rw [StillReaches, same]
    have parentAt := findsParent.at
    rw [same] at parentAt
    have offsets := (parentAt.split (nodup_pieces oldSound) whole).2
    have later : lookup.runOffset ≠ 0 := by omega
    refine ⟨node.text.take lookup.runOffset, ?_, ?_, .inr ?_⟩
    · rw [deleted.replaced, keptPiece, if_neg later]
      apply List.mem_append_right
      exact List.mem_append_left _ (List.mem_append_left _ List.mem_cons_self)
    · rw [List.length_take]
      omega
    · rw [DocState.childIds_applyDeleteRange_self found live (by omega) positive inside fresh]
      exact List.cons_ne_nil _ _
  · have kept : (parent.runId, text) ∈
        (state.applyDeleteRange lookup.runId lookup.runOffset count).pieces := by
      rw [deleted.whole, List.mem_append, List.mem_append] at member
      rw [deleted.replaced, List.mem_append, List.mem_append]
      rcases member with inBefore | here | inAfter
      · exact .inl inBefore
      · exact absurd (congrArg Prod.fst (List.mem_singleton.mp here)) same
      · exact .inr (.inr inAfter)
    have stored : (state.nodes.get? parent.runId).isSome = true := by
      rcases sound with ⟨tree, grown, _⟩
      rcases grown.rooted.node_of_mem_pieces member with ⟨_, other, otherFound, _⟩
      rw [otherFound]
      rfl
    refine ⟨text, kept, within, ?_⟩
    rw [DocState.childIds_applyDeleteRange_of_ne stored same fresh]
    exact uncut

theorem InStep.deleteRuns {limit fuel : Nat} (oldSound : old.Sound)
    (inside : limit ≤ (PieceTable.text old.pieces).length)
    (inStep : InStep old newText start cursor stop done mounted) (bound : stop ≤ limit)
    (enough : limit - stop ≤ fuel)
    (meets : DeletesMeet editor now (ensureRootSpan old.index.spans) limit fuel stop mounted) :
    InStep old newText start cursor limit done
      (Mounted.deleteRuns editor now (ensureRootSpan old.index.spans) limit fuel stop mounted) ∧
    ∀ position parent, position < stop → Finds old.pieces position parent →
      StillReaches mounted.doc.state parent → StillReaches
        (Mounted.deleteRuns editor now (ensureRootSpan old.index.spans) limit fuel stop
          mounted).doc.state parent := by
  induction fuel generalizing stop mounted with
  | zero =>
      have ended : stop = limit := by omega
      subst ended
      exact ⟨inStep, fun _ _ _ _ reaches => reaches⟩
  | succ fuel induction =>
      rw [Mounted.deleteRuns]
      by_cases going : stop < limit
      · rw [if_pos going]
        rcases oldSound.lookup (show stop < (PieceTable.text old.pieces).length by omega) with
          ⟨lookup, found, finds⟩
        rw [found]
        dsimp only
        rcases meets going lookup found with ⟨lookupMeets, fresh, rest⟩
        have span : lookup.runOffset < lookup.spanLength := by
          rcases finds with ⟨_, piece, _, _, within, _, length⟩
          omega
        generalize counted : min (lookup.spanLength - lookup.runOffset) (limit - stop) = count
          at fresh rest ⊢
        have positive : 0 < count := by omega
        have next := @InStep.delete editor now old newText done start cursor stop mounted inStep
          oldSound lookup finds lookupMeets count positive (by omega) fresh
        rcases induction next (by omega) (by omega) rest with ⟨final, reaches⟩
        refine ⟨final, fun position parent earlier findsParent still => ?_⟩
        apply reaches position parent (by omega) findsParent
        rcases mem_pieces_of_meets inStep.sound finds oldSound lookupMeets with
          ⟨node, nodeFound, live, length, member⟩
        rw [← length] at fresh
        have within : lookup.runOffset + count ≤ node.text.length := by omega
        rcases deleted_of_meets inStep.sound member positive within fresh with
          ⟨before, tail, after, deleted⟩
        have state : (mounted.afterEdit editor (mounted.doc.localDelete now lookup.runId
            lookup.runOffset count)).doc.state =
              mounted.doc.state.applyDeleteRange lookup.runId lookup.runOffset count := by
          rw [afterEdit, localDelete_eq nodeFound live positive within]
        rw [state]
        exact Deleted.stillReaches inStep.sound oldSound earlier finds findsParent nodeFound live
          positive within fresh deleted still
      · rw [if_neg going]
        have ended : stop = limit := by omega
        subst ended
        exact ⟨inStep, fun _ _ _ _ reaches => reaches⟩

/-! ## Insertions -/

theorem aligned_insert {table next before between after : PieceTable String UInt16}
    {id : String} {text : List UInt16}
    (aligned : PieceTable.Aligned old.pieces table start cursor stop done)
    (whole : table = before ++ (between ++ after))
    (inserted : next = before ++ (between ++ (id, text) :: after))
    (hidden : PieceTable.text between = []) (nodup : (PieceTable.keys next).Nodup)
    (fresh : id ∉ PieceTable.keys old.pieces)
    (place : (PieceTable.text before).length = done.length) :
    PieceTable.Aligned old.pieces next start cursor stop (done ++ text) := by
  have wholeParts : table = (before ++ between) ++ ([] ++ after) := by
    rw [whole, List.nil_append, List.append_assoc]
  have insertedParts : next = (before ++ between) ++ ([(id, text)] ++ after) := by
    rw [inserted, List.append_assoc]
    rfl
  apply @PieceTable.Aligned.replace _ _ old.pieces table next start cursor stop done aligned
    (before ++ between) [] [(id, text)] after [] [] [] text wholeParts insertedParts nodup rfl
  case replacementText =>
    change text ++ [] = [] ++ (text ++ [])
    rfl
  case place =>
    rw [PieceTable.text_append, hidden, List.append_nil, place]
    rfl
  case kept =>
    intro position key offset _ here piece listed _
    cases List.mem_singleton.mp listed
    exact absurd here.mem_keys fresh

theorem aligned_split {id : String}
    (aligned : PieceTable.Aligned old.pieces table start cursor stop done)
    (whole : table = before ++ (runId, text) :: after)
    (split : next = before ++ (runId, text.take offset) :: (id, text.drop offset) :: after)
    (nodup : (PieceTable.keys next).Nodup) (fresh : id ∉ PieceTable.keys old.pieces)
    (inside : offset ≤ text.length) (place : (PieceTable.text before).length + offset = done.length)
    :
    PieceTable.Aligned old.pieces next start cursor stop done := by
  have left : (text.take offset).length = offset := by
    rw [List.length_take]
    omega
  have replaced : PieceTable.Aligned old.pieces next start cursor (stop + 0) (done ++ []) := by
    apply @PieceTable.Aligned.replace _ _ old.pieces table next start cursor stop done aligned before
      [(runId, text)] [(runId, text.take offset), (id, text.drop offset)] after
      (text.take offset) [] (text.drop offset) [] whole split nodup
    case middleText =>
      rw [List.nil_append, List.take_append_drop]
      exact List.append_nil text
    case replacementText =>
      change text.take offset ++ (text.drop offset ++ []) = _
      rw [List.append_nil, List.nil_append]
    case place =>
      rw [left]
      exact place
    case kept =>
      intro position key place _ here piece listed within
      rcases List.mem_cons.mp listed with same | later
      · cases same
        rw [left] at within ⊢
        exact ⟨within, text, [], [(id, text.drop offset)], rfl, rfl, by omega⟩
      · cases List.mem_singleton.mp later
        exact absurd here.mem_keys fresh
  rw [List.append_nil] at replaced
  exact replaced

theorem aligned_extend {appendText : List UInt16}
    (aligned : PieceTable.Aligned old.pieces table start cursor stop done)
    (whole : table = before ++ (runId, text) :: after)
    (extended : next = before ++ (runId, text ++ appendText) :: after)
    (nodup : (PieceTable.keys next).Nodup)
    (bound : ∀ position offset, PieceTable.At old.pieces position runId offset →
      offset < text.length)
    (place : (PieceTable.text before).length + text.length = done.length) :
    PieceTable.Aligned old.pieces next start cursor stop (done ++ appendText) := by
  apply @PieceTable.Aligned.replace _ _ old.pieces table next start cursor stop done aligned before
    [(runId, text)] [(runId, text ++ appendText)] after text [] [] appendText whole extended nodup
    rfl
  case replacementText =>
    change text ++ appendText ++ [] = _
    rw [List.append_nil, List.append_nil]
  case place => exact place
  case kept =>
    intro position key offset _ here piece listed _
    cases List.mem_singleton.mp listed
    have within := bound position offset here
    exact ⟨within, text, [], [], rfl, rfl, within⟩

theorem insertAfter_eq {afterRun : String} {splitParentAt : Option Int} {next : DocState}
    (sound : mounted.doc.state.Sound) (tracked : mounted.localEdit = true)
    (split : mounted.doc.splitParent afterRun splitParentAt = some next)
    (absent : mounted.doc.state.nodes.get? (mounted.doc.newRun now text afterRun none).id = none)
    (fresh : next.nodes.get? (mounted.doc.newRun now text afterRun none).id = none) :
    mounted.insertAfter editor now text afterRun splitParentAt = {
      view := {
        text := mounted.view.text
        idMap := ensureRootSpan
          (next.applyInsertRun (mounted.doc.newRun now text afterRun none)).index.spans }
      doc := {
        mounted.doc.advance now with
        state := next.applyInsertRun (mounted.doc.newRun now text afterRun none) }
      localEdit := true } := by
  have notRoot : (mounted.doc.newRun now text afterRun none).id ≠ rootId := by
    intro same
    rcases sound with ⟨tree, grown, _⟩
    rcases grown.root with ⟨root, found, _⟩
    rw [same, found] at absent
    cases absent
  have inserted : (next.applyInsertRun (mounted.doc.newRun now text afterRun none)).nodes.get?
      (mounted.doc.newRun now text afterRun none).id =
        some (mounted.doc.newRun now text afterRun none) := by
    rw [DocState.applyInsertRun, if_neg (by rw [fresh]; exact Bool.false_ne_true)]
    exact OrderedMap.get?_set_self _ _ _
  have edited : mounted.doc.localInsert now text {
      afterRun := some afterRun
      splitParentAt
      hlc := none } =
      ({ mounted.doc.advance now with
          state := next.applyInsertRun (mounted.doc.newRun now text afterRun none) },
        editEvent mounted.doc.state
          (next.applyInsertRun (mounted.doc.newRun now text afterRun none))
          (mounted.doc.newRun now text afterRun none).id .insert) := by
    simp only [TextDocument.localInsert, Option.some_or, Option.getD_some, split]
    rfl
  rw [insertAfter, edited, afterEdit_eq editor tracked
    (editEvent_of_new absent notRoot inserted rfl _ _)]

theorem InStep.insertAfter (inStep : InStep old newText start cursor stop done mounted)
    {afterRun : String} {splitParentAt : Option Int} {next : DocState} (nextSound : next.Sound)
    (split : mounted.doc.splitParent afterRun splitParentAt = some next)
    (absent : mounted.doc.state.nodes.get? (mounted.doc.newRun now text afterRun none).id = none)
    (fresh : next.nodes.get? (mounted.doc.newRun now text afterRun none).id = none)
    (found : next.nodes.get? afterRun = some parent) (live : parent.deleted = false)
    (stored : ∀ id, (mounted.doc.state.nodes.get? id).isSome = true → (next.nodes.get? id).isSome =
      true)
    (aligned : PieceTable.Aligned old.pieces (next.applyInsertRun (mounted.doc.newRun now text
      afterRun none)).pieces start cursor stop (done ++ text)) :
    InStep old newText start cursor stop (done ++ text)
      (mounted.insertAfter editor now text afterRun splitParentAt) := by
  rw [insertAfter_eq inStep.sound inStep.tracked split absent fresh]
  constructor
  case sound =>
    refine nextSound.insert (.inr ⟨?_, .inr (.inl ⟨parent, found, live⟩)⟩)
    change (next.nodes.get? afterRun).isSome = true
    rw [found]
    rfl
  case aligned => exact aligned
  case stored =>
    intro id listed
    exact DocState.stored_applyInsertRun (stored id (inStep.stored id listed)) _
  case text => exact inStep.text
  case idMap => rfl
  case tracked => rfl

theorem localExtend_eq {doc : TextDocument} (found : doc.state.nodes.get? runId = some node)
    (live : node.deleted = false) (nonempty : text ≠ []) :
    doc.localExtend now runId text none =
      ({ doc.advance now with
          state := doc.state.applyExtendRun runId text (doc.advance now).localHlcState.packed },
        editEvent doc.state
          (doc.state.applyExtendRun runId text (doc.advance now).localHlcState.packed) runId
          .extend) := by
  rw [TextDocument.localExtend, if_neg fun none => nonempty (List.length_eq_zero_iff.mp none),
    found]
  dsimp only
  rw [live, if_neg Bool.false_ne_true]
  rfl

section

variable (inStep : InStep old newText start cursor stop done mounted)
include inStep

theorem InStep.extend (nonempty : text ≠ [])
    (found : mounted.doc.state.nodes.get? runId = some node) (live : node.deleted = false)
    (whole : mounted.doc.state.pieces = before ++ (runId, node.text) :: after)
    (place : (PieceTable.text before).length + node.text.length = done.length)
    (bound : ∀ position offset, PieceTable.At old.pieces position runId offset →
      offset < node.text.length) :
    InStep old newText start cursor stop (done ++ text)
      (mounted.afterEdit editor (mounted.doc.localExtend now runId text none)) := by
  have sound := inStep.sound
  have notRoot : runId ≠ rootId := by
    rcases sound with ⟨tree, grown, _⟩
    have member : (runId, node.text) ∈ mounted.doc.state.pieces := by
      rw [whole]
      exact List.mem_append_right _ List.mem_cons_self
    exact (grown.rooted.node_of_mem_pieces member).1
  generalize time : (mounted.doc.advance now).localHlcState.packed = hlc
  have pieces := DocState.pieces_applyExtendRun sound whole text hlc
  have postSound : (mounted.doc.state.applyExtendRun runId text hlc).Sound :=
    @DocState.Sound.reduce _ sound (.extendRun runId text hlc) fun same => absurd same notRoot
  have reported : (mounted.doc.localExtend now runId text none).2 =
      some { runId, kind := .extend } := by
    rw [localExtend_eq found live nonempty, time]
    apply editEvent_of_changed found notRoot
    intro next reached _ unchanged
    rw [DocState.applyExtendRun, found] at reached
    dsimp only at reached
    rw [live, if_neg Bool.false_ne_true, OrderedMap.get?_set_self] at reached
    cases reached
    exact nonempty (List.append_right_eq_self.mp unchanged)
  rw [afterEdit_eq editor inStep.tracked reported, localExtend_eq found live nonempty, time]
  constructor
  case sound => exact postSound
  case aligned =>
    exact aligned_extend inStep.aligned whole pieces (nodup_pieces postSound) bound place
  case stored =>
    intro id listed
    exact DocState.stored_applyExtendRun (inStep.stored id listed) _ _ _
  case text => exact inStep.text
  case idMap => rfl
  case tracked => rfl

theorem InStep.notMem_keys {id : String} (absent : mounted.doc.state.nodes.get? id = none) :
    id ∉ PieceTable.keys old.pieces := by
  intro listed
  have stored := inStep.stored id listed
  rw [absent] at stored
  cases stored

theorem InStep.insertFirst (first : done = [])
    (meets : NewRunMeets mounted.doc.state (mounted.doc.newRun now text rootId none)) :
    InStep old newText start cursor stop (done ++ text)
      (mounted.insertAfter editor now text rootId none) := by
  have sound := inStep.sound
  rcases meets with ⟨absent, leads⟩
  rcases DocState.pieces_insert_first sound absent rfl rfl leads with
    ⟨between, after, hidden, whole, inserted⟩
  have root : ∃ root, mounted.doc.state.nodes.get? rootId = some root ∧ root.deleted = false := by
    rcases sound with ⟨tree, grown, _⟩
    rcases grown.root with ⟨root, found, _, live⟩
    exact ⟨root, found, live⟩
  rcases root with ⟨root, found, live⟩
  have postSound := @DocState.Sound.insert _ sound (mounted.doc.newRun now text rootId none)
    (.inr ⟨by change (mounted.doc.state.nodes.get? rootId).isSome = true; rw [found]; rfl,
      .inr (.inl ⟨root, found, live⟩)⟩)
  apply inStep.insertAfter sound rfl absent absent found live fun _ stored => stored
  apply @aligned_insert old done start cursor stop _ _ [] between after _ text inStep.aligned whole
    inserted hidden (nodup_pieces postSound) (inStep.notMem_keys absent)
  rw [first]
  rfl

theorem InStep.insertAtEnd (found : mounted.doc.state.nodes.get? parent.id = some parent)
    (live : parent.deleted = false)
    (whole : mounted.doc.state.pieces = before ++ (parent.id, parent.text) :: after)
    (place : (PieceTable.text before).length + parent.text.length = done.length)
    (meets : NewRunMeets mounted.doc.state (mounted.doc.newRun now text parent.id none)) :
    InStep old newText start cursor stop (done ++ text)
      (mounted.insertAfter editor now text parent.id none) := by
  have sound := inStep.sound
  rcases meets with ⟨absent, leads⟩
  rcases DocState.pieces_insert_after sound absent whole rfl leads with
    ⟨between, rest, hidden, afterParts, inserted⟩
  have postSound := @DocState.Sound.insert _ sound (mounted.doc.newRun now text parent.id none)
    (.inr ⟨by change (mounted.doc.state.nodes.get? parent.id).isSome = true; rw [found]; rfl,
      .inr (.inl ⟨parent, found, live⟩)⟩)
  apply inStep.insertAfter sound rfl absent absent found live fun _ stored => stored
  rw [afterParts, List.append_cons] at whole
  rw [List.append_cons] at inserted
  apply aligned_insert inStep.aligned whole inserted hidden (nodup_pieces postSound)
    (inStep.notMem_keys absent)
  rw [PieceTable.text_append, List.length_append, ← place]
  change _ + (parent.text ++ []).length = _
  rw [List.append_nil]

theorem InStep.insertInside (found : mounted.doc.state.nodes.get? parent.id = some parent)
    (whole : mounted.doc.state.pieces = before ++ (parent.id, parent.text) :: after)
    (positive : 0 < offset) (inside : offset < parent.text.length)
    (place : (PieceTable.text before).length + offset = done.length)
    (splitFresh : mounted.doc.state.nodes.get? (makeSplitId parent.id offset) = none)
    (meets : NewRunMeets (mounted.doc.state.applySplit parent.id offset)
      (mounted.doc.newRun now text parent.id none)) :
    InStep old newText start cursor stop (done ++ text)
      (mounted.insertAfter editor now text parent.id (some offset)) := by
  have sound := inStep.sound
  rcases meets with ⟨fresh, leads⟩
  have splitSound := sound.split parent.id offset
  have split := @DocState.pieces_applySplit _ parent.id offset sound _ _ _ whole (by omega)
    (by omega) splitFresh
  rw [Int.toNat_natCast] at split
  rcases DocState.pieces_insert_after splitSound fresh split rfl leads with
    ⟨between, rest, hidden, afterParts, inserted⟩
  have absent : mounted.doc.state.nodes.get? (mounted.doc.newRun now text parent.id none).id =
      none := by
    rw [← Option.not_isSome_iff_eq_none]
    intro stored
    have later := DocState.stored_applySplit stored parent.id offset
    rw [fresh] at later
    cases later
  have left : ∃ left, (mounted.doc.state.applySplit parent.id offset).nodes.get? parent.id =
      some left ∧ left.deleted = false := by
    rcases splitSound with ⟨tree, grown, _⟩
    have member : (parent.id, parent.text.take offset) ∈
        (mounted.doc.state.applySplit parent.id offset).pieces := by
      rw [split]
      exact List.mem_append_right _ List.mem_cons_self
    rcases (grown.rooted.node_of_mem_pieces member).2 with ⟨left, leftFound, leftLive, _⟩
    exact ⟨left, leftFound, leftLive⟩
  rcases left with ⟨left, leftFound, leftLive⟩
  have postSound := @DocState.Sound.insert _ splitSound (mounted.doc.newRun now text parent.id none)
    (.inr ⟨by
      change ((mounted.doc.state.applySplit parent.id offset).nodes.get? parent.id).isSome = true
      rw [leftFound]
      rfl, .inr (.inl ⟨left, leftFound, leftLive⟩)⟩)
  have accepted : mounted.doc.splitParent parent.id (some (offset : Int)) =
      some (mounted.doc.state.applySplit parent.id offset) := by
    rw [TextDocument.splitParent, found]
    exact if_pos ⟨by omega, by omega⟩
  apply inStep.insertAfter splitSound accepted absent fresh leftFound leftLive fun id stored =>
    DocState.stored_applySplit stored parent.id offset
  have aligned := aligned_split inStep.aligned whole split (nodup_pieces splitSound)
    (inStep.notMem_keys splitFresh) (by omega) place
  rw [afterParts, List.append_cons] at split
  rw [List.append_cons] at inserted
  apply aligned_insert aligned split inserted hidden (nodup_pieces postSound)
    (inStep.notMem_keys absent)
  rw [PieceTable.text_append, List.length_append, ← place]
  change _ + (parent.text.take offset ++ []).length = _
  rw [List.append_nil, List.length_take]
  omega

theorem InStep.insertText (oldSound : old.Sound) (nonempty : text ≠ [])
    (ends : cursor = done.length) (first : start = 0 → done = [])
    (inside : start ≤ (PieceTable.text old.pieces).length)
    (parents : 0 < start → ∀ lookup, Finds old.pieces (start - 1) lookup →
      lookupPositionFromSpans (ensureRootSpan old.index.spans) (start - 1) = some lookup →
      StillReaches mounted.doc.state lookup)
    (meets : InsertionMeets now (ensureRootSpan old.index.spans) start text mounted) :
    InStep old newText start cursor stop (done ++ text)
      (Mounted.insertText editor now (ensureRootSpan old.index.spans) start text mounted) := by
  rw [Mounted.insertText, if_neg fun none => nonempty (List.length_eq_zero_iff.mp none)]
  rw [InsertionMeets] at meets
  by_cases zero : start = 0
  · rw [if_pos zero] at meets ⊢
    exact inStep.insertFirst (first zero) meets
  · rw [if_neg zero] at meets ⊢
    rcases oldSound.lookup (show start - 1 < (PieceTable.text old.pieces).length by omega) with
      ⟨lookup, found, finds⟩
    rcases parents (by omega) lookup finds found with ⟨_, member, within, uncut⟩
    have node : ∃ node, mounted.doc.state.nodes.get? lookup.runId = some node ∧
        node.deleted = false ∧ (lookup.runId, node.text) ∈ mounted.doc.state.pieces ∧
          lookup.runOffset < node.text.length ∧ node.id = lookup.runId ∧
            (node.text.length = lookup.spanLength ∨
              mounted.doc.state.childIds lookup.runId ≠ []) := by
      rcases inStep.sound with ⟨tree, grown, _⟩
      rcases (grown.rooted.node_of_mem_pieces member).2 with ⟨node, nodeFound, live, rfl⟩
      exact ⟨node, nodeFound, live, member, within, grown.named _ _ nodeFound, uncut⟩
    rcases node with ⟨parent, parentFound, live, parentMember, reaches, named, uncutNode⟩
    have meets := meets lookup parent found parentFound
    rw [found]
    dsimp only at meets ⊢
    rw [parentFound]
    dsimp only
    rw [live, if_neg Bool.false_ne_true]
    rcases inStep.aligned.previous (start - 1) _ _ (by omega) finds.at
      ⟨parent.text, parentMember, reaches⟩ with ⟨place, there, next⟩
    rcases List.append_of_mem parentMember with ⟨before, after, whole⟩
    have atPlace := (there.split (nodup_pieces inStep.sound) whole).2
    rw [← named] at parentFound whole uncutNode
    by_cases atEnd : lookup.runOffset + 1 = parent.text.length
    · have endOfRun : (lookup.runOffset : Int) = parent.text.length - 1 := by omega
      rw [if_pos atEnd] at meets
      by_cases own : parent.actorId = mounted.doc.actorId ∧
          (mounted.doc.state.childIds parent.id).length = 0
      · rw [if_pos ⟨endOfRun, own⟩]
        have uncutLength := uncutNode.resolve_right fun children =>
          children (List.length_eq_zero_iff.mp own.2)
        apply inStep.extend nonempty parentFound live whole (by omega)
        intro position offset here
        rcases finds with ⟨oldBefore, piece, oldAfter, oldWhole, _, _, length⟩
        rw [← named] at oldWhole
        have bound := (here.split (nodup_pieces oldSound) oldWhole).1
        omega
      · rw [if_neg fun all => own all.2, if_pos endOfRun]
        have newRun := meets.resolve_left fun leaf =>
          own ⟨leaf.1, List.length_eq_zero_iff.mpr leaf.2⟩
        exact inStep.insertAtEnd parentFound live whole (by omega) newRun
    · have notAtEnd : ¬ (lookup.runOffset : Int) = parent.text.length - 1 := by omega
      rw [if_neg atEnd] at meets
      rw [if_neg fun all => notAtEnd all.1, if_neg notAtEnd]
      have short : lookup.runOffset + 1 < parent.text.length := by omega
      have edge : (PieceTable.text before).length + (lookup.runOffset + 1) = done.length := by
        rw [← ends, ← next, atPlace, Nat.add_assoc]
      exact inStep.insertInside parentFound whole (Nat.succ_pos lookup.runOffset) short edge
        meets.1 meets.2

end

theorem InStep.handleChange (oldSound : old.Sound) {change : Change}
    (inStep : InStep old newText start cursor stop done mounted)
    (beyond : stop < change.start ∨ change.start = 0 ∧ stop = 0 ∧ done = [])
    (ordered : change.start ≤ change.stop)
    (inside : change.stop ≤ (PieceTable.text old.pieces).length)
    (meets : ChangeMeets editor now (ensureRootSpan old.index.spans) mounted change) :
    ∃ nextCursor, InStep old newText change.start nextCursor change.stop
      (done ++ (((PieceTable.text old.pieces).drop stop).take (change.start - stop) ++
        change.insert))
      (Mounted.handleChange editor now (ensureRootSpan old.index.spans) mounted change) := by
  have size : (done ++ ((PieceTable.text old.pieces).drop stop).take (change.start - stop)).length =
      done.length + (change.start - stop) := by
    rw [List.length_append, List.length_take, List.length_drop]
    omega
  refine ⟨done.length + (change.start - stop), ?_⟩
  have advanced : InStep old newText change.start (done.length + (change.start - stop))
      change.start (done ++ ((PieceTable.text old.pieces).drop stop).take (change.start - stop))
        mounted := {
    sound := inStep.sound
    aligned := inStep.aligned.advance (beyond.imp id fun first => ⟨first.1, first.2.1⟩)
      (Nat.le_trans ordered inside)
    stored := inStep.stored
    text := inStep.text
    idMap := inStep.idMap
    tracked := inStep.tracked }
  rcases advanced.deleteRuns oldSound inside ordered (Nat.le_refl _) meets.1 with
    ⟨deleted, reaches⟩
  rw [Mounted.handleChange, ← List.append_assoc]
  by_cases empty : change.insert = []
  · rw [empty, List.append_nil, Mounted.insertText, if_pos (List.length_nil)]
    exact deleted
  · rcases meets.2 empty with ⟨parentMeets, insertionMeets⟩
    apply deleted.insertText oldSound empty size.symm ?_ (Nat.le_trans ordered inside) ?_
      insertionMeets
    · intro zero
      rcases beyond with further | ⟨_, _, nothing⟩
      · omega
      · rw [nothing, zero, Nat.zero_sub]
        rfl
    · intro positive lookup finds found
      apply reaches (change.start - 1) lookup (by omega) finds
      rcases mem_pieces_of_meets inStep.sound finds oldSound
        (parentMeets positive lookup found) with ⟨node, _, _, length, member⟩
      refine ⟨node.text, member, ?_, .inl length⟩
      rcases finds with ⟨_, piece, _, _, within, _, spanLength⟩
      omega

end Steps

/-! ## Transactions -/

/-- Changes in ascending positions of a text, with something unchanged between any two. -/
def Separated (length : Nat) : Nat → List Change → Prop
  | _, [] => True
  | low, change :: rest =>
      low ≤ change.start ∧ change.start ≤ change.stop ∧ change.stop ≤ length ∧
        Separated length (change.stop + 1) rest

instance separatedDecidable (length : Nat) :
    ∀ low changes, Decidable (Separated length low changes)
  | _, [] => .isTrue trivial
  | low, change :: rest =>
      have := separatedDecidable length (change.stop + 1) rest
      inferInstanceAs (Decidable (low ≤ change.start ∧ change.start ≤ change.stop ∧
        change.stop ≤ length ∧ Separated length (change.stop + 1) rest))

theorem InStep.changes {editor : CodeMirror} {now : Nat → Nat} {old : DocState}
    {newText done : List UInt16} {start cursor stop low : Nat} {mounted : Mounted}
    (oldSound : old.Sound) {changes : List Change}
    (inStep : InStep old newText start cursor stop done mounted)
    (after : low = stop + 1 ∨ low = 0 ∧ stop = 0 ∧ done = [])
    (separated : Separated (PieceTable.text old.pieces).length low changes)
    (meets : ChangesMeet editor now (ensureRootSpan old.index.spans) mounted changes) :
    let final := changes.foldl (Mounted.handleChange editor now (ensureRootSpan old.index.spans)) mounted
    final.doc.state.Sound ∧
      PieceTable.text final.doc.state.pieces =
        done ++ changedText (PieceTable.text old.pieces) stop changes ∧
      final.view.text = newText ∧
      final.view.idMap = ensureRootSpan final.doc.state.index.spans := by
  induction changes generalizing start cursor stop low done mounted with
  | nil => exact ⟨inStep.sound, inStep.aligned.text, inStep.text, inStep.idMap⟩
  | cons change rest induction =>
      rcases separated with ⟨follows, ordered, inside, restSeparated⟩
      have beyond : stop < change.start ∨ change.start = 0 ∧ stop = 0 ∧ done = [] := by
        rcases after with later | ⟨_, atStart, nothing⟩
        · left
          omega
        · by_cases zero : change.start = 0
          · exact .inr ⟨zero, atStart, nothing⟩
          · left
            omega
      rcases inStep.handleChange oldSound beyond ordered inside meets.1 with ⟨cursor, next⟩
      have final := induction next (.inl rfl) restSeparated meets.2
      rw [List.append_assoc, List.append_assoc] at final
      exact final

/-- The view of a transaction when the listener runs. -/
def withChanges (mounted : Mounted) (changes : List Change) : Mounted :=
  { mounted with view := { mounted.view with text := changedText mounted.view.text 0 changes } }

/-- Local edits are tracked, and the changes of a transaction meet their conditions one
after the other. -/
def TransactionMeets (editor : CodeMirror) (now : Nat → Nat) (mounted : Mounted)
    (changes : List Change) : Prop :=
  mounted.localEdit = true ∧
    ChangesMeet editor now mounted.view.idMap (mounted.withChanges changes) changes

theorem Mirrors.dispatch {editor : CodeMirror} {now : Nat → Nat} {mounted : Mounted}
    (mirrors : Mirrors mounted) {changes : List Change}
    (separated : Separated mounted.view.text.length 0 changes)
    (meets : TransactionMeets editor now mounted changes) :
    Mirrors (mounted.dispatch editor now changes) := by
  have sound := mirrors.sound
  have start : InStep mounted.doc.state (changedText mounted.view.text 0 changes) 0 0 0 []
      (mounted.withChanges changes) := {
    sound := sound
    aligned := PieceTable.aligned_self (nodup_pieces sound)
    stored := fun id listed => by
      rcases List.mem_map.mp listed with ⟨piece, member, rfl⟩
      rcases sound with ⟨tree, grown, _⟩
      rcases (grown.rooted.node_of_mem_pieces member).2 with ⟨node, found, _⟩
      change (mounted.doc.state.nodes.get? piece.1).isSome = true
      rw [found]
      rfl
    text := rfl
    idMap := mirrors.idMap
    tracked := meets.1 }
  have oldText : mounted.view.text = PieceTable.text mounted.doc.state.pieces := by
    rw [DocState.text_pieces, mirrors.text]
  rw [TransactionMeets, mirrors.idMap] at meets
  rw [oldText] at separated
  rcases start.changes sound (.inr ⟨rfl, rfl, rfl⟩) separated meets.2 with
    ⟨finalSound, text, newText, idMap⟩
  have updated : mounted.dispatch editor now changes = changes.foldl
      (handleChange editor now (ensureRootSpan mounted.doc.state.index.spans))
      (mounted.withChanges changes) := by
    rw [← mirrors.idMap]
    rfl
  rw [updated]
  refine ⟨finalSound, ?_, idMap⟩
  rw [newText, ← DocState.text_pieces, text, oldText, List.nil_append]

/-- A mounted bridge hears of transactions, each of them well separated. -/
def localEdits (editor : CodeMirror) (now : Nat → Nat) (mounted : Mounted) :
    Machine Mounted (List Change) where
  initial := mounted
  step := fun mounted changes =>
    if Separated mounted.view.text.length 0 changes then
      some (mounted.dispatch editor now changes)
    else none

theorem mirrors_of_transactions {editor : CodeMirror} {now : Nat → Nat} {mounted final : Mounted}
    (mirrors : Mirrors mounted) {transactions : List (List Change)}
    (meets : (localEdits editor now mounted).Meets (TransactionMeets editor now) mounted
      transactions)
    (reached : (localEdits editor now mounted).run mounted transactions = some final) :
    Mirrors final := by
  have preserved : ∀ state changes next, Mirrors state → TransactionMeets editor now state changes →
      (localEdits editor now mounted).step state changes = some next → Mirrors next := by
    intro state changes next mirrors meets stepped
    rw [localEdits] at stepped
    dsimp only at stepped
    split at stepped
    · next separated =>
        cases stepped
        exact mirrors.dispatch separated meets
    · cases stepped
  exact Machine.run_preserves preserved mirrors meets reached

/-! ### Short transactions -/

def twoInserts : List Change :=
  [{ start := 1, stop := 1, insert := [120] }, { start := 3, stop := 3, insert := [122] }]

theorem mirrors_twoInserts :
    ((mountedOn twoRuns).dispatch plainEditor (fun _ => 5) twoInserts).view.text =
        [97, 120, 98, 99, 122] ∧
      Mirrors ((mountedOn twoRuns).dispatch plainEditor (fun _ => 5) twoInserts) := by
  refine ⟨rfl, ?_⟩
  apply @mirrors_of_transactions plainEditor (fun _ => 5) (mountedOn twoRuns) _
    ⟨sound_twoRuns, rfl, rfl⟩ [twoInserts] ?_ rfl
  refine ⟨⟨rfl,
    ⟨trivial, fun _ => ⟨fun _ lookup found => ?_, fun lookup parentRun found held => ?_⟩⟩,
    ⟨trivial, fun _ => ⟨fun _ lookup found => ?_, fun lookup parentRun found held => ?_⟩⟩,
    trivial⟩, fun _ _ => trivial⟩
  · cases found
    exact ⟨_, rfl, rfl, rfl⟩
  · cases found
    cases held
    refine ⟨rfl, rfl, fun sibling before => ?_⟩
    revert sibling
    decide
  · cases found
    exact ⟨_, rfl, rfl, rfl⟩
  · cases found
    cases held
    exact .inl ⟨rfl, rfl⟩

/-- The first code unit of a run is deleted and another appended to the run: the listener
finds the run deleted, and the text goes to the start of the document. -/
theorem appendedText_misplaced :
    ¬ ∀ (editor : CodeMirror) (now : Nat → Nat) (mounted : Mounted) (changes : List Change),
      editor.Documented → Mirrors mounted → Separated mounted.view.text.length 0 changes →
        (mounted.dispatch editor now changes).doc.state.reconstruct =
          (mounted.dispatch editor now changes).view.text := by
  intro mirrored
  have texts := mirrored plainEditor (fun _ => 5) (mountedOn oneRun)
    [{ start := 0, stop := 1, insert := [] }, { start := 2, stop := 2, insert := [121] }]
    documented_plainEditor ⟨sound_oneRun, rfl, rfl⟩ (by decide)
  revert texts
  decide

/-- Without a tracker the bridge applies the user's own edit to the view again. -/
theorem untracked_applied_twice :
    let mounted := ({ mountedOn createDocState with localEdit := false }).dispatch plainEditor
      (fun _ => 5) [{ start := 0, stop := 0, insert := [120] }]
    mounted.doc.state.reconstruct = [120] ∧ mounted.view.text = [120, 120] := by
  decide

end Mounted

end Ebb.Text
