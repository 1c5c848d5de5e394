import Ebb.Text.DeletedRanges

namespace Ebb.Text

/-! Every visible run has one span in the index, wherever the span lies: also after inserts below
tombstones and below parents that do not exist. The one exception is a run split off the sentinel
root, which has no span to cut. -/

namespace DocState

/-- How much of a run a reader sees, if anything. -/
def shownLength (nodes : OrderedMap String RunNode) (id : String) : Option Nat :=
  (pieceOf nodes id).map fun piece => piece.2.length

/-- The spans are those of the visible runs, in some order. -/
structure Spanned (state : DocState) : Prop where
  nodup : (state.index.spans.map RunSpan.runId).Nodup
  spans : ∀ span, span ∈ state.index.spans ↔
    shownLength state.nodes span.runId = some span.length

/-- An offset lies inside the text of a live run. -/
def Cuts (state : DocState) (runId : String) (offset : Int) : Prop :=
  ∃ node, state.nodes.get? runId = some node ∧ node.deleted = false ∧
    0 < offset ∧ offset < node.text.length

/-- No edit splits or deletes from within a text the sentinel root was given. -/
def SparesRoot (state : DocState) : Edit → Prop
  | .reduce (.split runId offset) => runId = rootId → ¬ state.Cuts rootId offset
  | .reduce (.deleteRange runId offset count) => runId = rootId →
      ¬ state.Cuts rootId offset ∧ ¬ state.Cuts rootId (offset + count)
  | _ => True

section Lengths

variable {nodes others : OrderedMap String RunNode} {id : String} {node : RunNode}

theorem shownLength_of_live (named : node.id = id) (found : nodes.get? id = some node)
    (live : node.deleted = false) (notRoot : id ≠ rootId) :
    shownLength nodes id = some node.text.length := by
  simp [shownLength, pieceOf_live named found live notRoot]

theorem shownLength_of_deleted (found : nodes.get? id = some node)
    (deleted : node.deleted = true) : shownLength nodes id = none := by
  simp [shownLength, pieceOf_deleted found deleted]

theorem shownLength_of_absent (absent : nodes.get? id = none) : shownLength nodes id = none := by
  simp [shownLength, pieceOf, shown, absent]

theorem shownLength_congr (same : others.get? id = nodes.get? id) :
    shownLength others id = shownLength nodes id := by
  simp only [shownLength, pieceOf, shown, same]

theorem shownLength_set_of_ne {other : String} (apart : other ≠ id) :
    shownLength (nodes.set id node) other = shownLength nodes other :=
  shownLength_congr (OrderedMap.get?_set_of_ne _ apart _)

theorem SameRuns.shownLength (same : SameRuns nodes others) (id : String) :
    DocState.shownLength others id = DocState.shownLength nodes id := by
  simp only [DocState.shownLength, same.pieceOf]

theorem shownLength_root {state : DocState} (listed : Listed state) :
    shownLength state.nodes rootId = none := by
  obtain ⟨root, found⟩ := Option.isSome_iff_exists.mp listed.root
  have named := listed.named rootId root found
  simp [shownLength, pieceOf, shown, found, RunNode.visible, named]

end Lengths

/-! ## Changes of the index -/

section Spanned

variable {state : DocState} {runId : String} {node : RunNode}

theorem Spanned.congr (spanned : Spanned state) {other : DocState}
    (index : other.index.spans = state.index.spans)
    (same : ∀ id, shownLength other.nodes id = shownLength state.nodes id) : Spanned other where
  nodup := by rw [index]; exact spanned.nodup
  spans := fun span => by rw [index, same]; exact spanned.spans span

theorem Spanned.around (spanned : Spanned state) {length : Nat}
    (shows : shownLength state.nodes runId = some length) :
    ∃ before after, state.index.spans = before ++ RunSpan.mk runId length :: after ∧
      (∀ span ∈ before, span.runId ≠ runId) ∧ ∀ span ∈ after, span.runId ≠ runId := by
  obtain ⟨before, after, whole⟩ :=
    List.append_of_mem ((spanned.spans (RunSpan.mk runId length)).mpr shows)
  have nodup := spanned.nodup
  rw [whole, List.map_append, List.map_cons, List.nodup_append, List.nodup_cons] at nodup
  refine ⟨before, after, whole, fun span member same => ?_, fun span member same => ?_⟩
  · exact nodup.2.2 span.runId (List.mem_map_of_mem member) runId List.mem_cons_self same
  · exact nodup.2.1.1 (List.mem_map.mpr ⟨span, member, same⟩)

theorem Spanned.runId_ne (spanned : Spanned state) (hidden : shownLength state.nodes runId = none) :
    ∀ span ∈ state.index.spans, span.runId ≠ runId := by
  intro span member same
  have shows := (spanned.spans span).mp member
  rw [same, hidden] at shows
  cases shows

theorem Spanned.write (spanned : Spanned state) (listed : Listed state) {earlier : RunNode}
    (found : state.nodes.get? runId = some earlier) (live : earlier.deleted = false)
    (named : node.id = runId) (nextLive : node.deleted = false) {change : RunSpan → RunSpan}
    (kept : ∀ span, (change span).runId = span.runId)
    (changed : (change earlier.span).length = node.text.length) (totalLength : Int) :
    Spanned { state with
      nodes := state.nodes.set runId node
      index := {
        spans := state.index.spans.map fun span =>
          if span.runId = runId then change span else span
        totalLength } } := by
  have earlierNamed := listed.named runId earlier found
  have ids : ∀ span, (if span.runId = runId then change span else span).runId = span.runId := by
    intro span
    split
    · exact kept span
    · rfl
  have here : ∀ span ∈ state.index.spans, span.runId = runId → runId ≠ rootId ∧
      span = earlier.span := by
    intro span member same
    have notRoot : runId ≠ rootId := by
      rintro rfl
      exact spanned.runId_ne (shownLength_root listed) span member same
    have shows := (spanned.spans span).mp member
    rw [same, shownLength_of_live earlierNamed found live notRoot] at shows
    cases span
    simp_all [RunNode.span]
  constructor
  case nodup =>
    simp only [List.map_map, Function.comp_def, ids]
    exact spanned.nodup
  case spans =>
    intro span
    simp only [List.mem_map]
    by_cases same : span.runId = runId
    · rw [same]
      by_cases root : runId = rootId
      · have bare : shownLength (state.nodes.set runId node) runId = none := by
          simp [shownLength, pieceOf, shown, RunNode.visible, named, root,
            OrderedMap.get?_set_self]
        rw [bare]
        constructor
        · rintro ⟨other, member, rfl⟩
          rw [ids] at same
          exact absurd root (here other member same).1
        · intro shows
          cases shows
      · rw [shownLength_of_live named (OrderedMap.get?_set_self _ _ _) nextLive root,
          Option.some.injEq, ← changed]
        constructor
        · rintro ⟨other, member, rfl⟩
          rw [ids] at same
          rw [if_pos same, (here other member same).2]
        · intro length
          refine ⟨earlier.span, ?_, ?_⟩
          · rw [spanned.spans]
            exact (congrArg _ earlierNamed).trans
              (shownLength_of_live earlierNamed found live root)
          · have owned : earlier.span.runId = runId := earlierNamed
            rw [if_pos owned]
            have sameId := (kept earlier.span).trans (owned.trans same.symm)
            cases span
            generalize change earlier.span = next at *
            cases next
            simp_all
    · rw [shownLength_set_of_ne same, ← spanned.spans]
      constructor
      · rintro ⟨other, member, rfl⟩
        rw [ids] at same
        rw [if_neg same]
        exact member
      · intro member
        exact ⟨span, member, if_neg same⟩

theorem Spanned.insert (spanned : Spanned state) (listed : Listed state) (node : RunNode) :
    Spanned (state.applyInsertRun node) := by
  rw [applyInsertRun]
  split
  · exact spanned
  · next fresh =>
      have absent := shownLength_of_absent (Option.not_isSome_iff_eq_none.mp fresh)
      have notRoot : node.id ≠ rootId := fun same => fresh (same ▸ listed.root)
      dsimp only
      split
      · next dead =>
          apply spanned.congr
          case index => rfl
          intro id
          by_cases same : id = node.id
          · rw [same, absent]
            exact shownLength_of_deleted (OrderedMap.get?_set_self _ _ _) dead
          · exact shownLength_set_of_ne same
      · next shows =>
          have live : node.deleted = false := Bool.not_eq_true _ ▸ shows
          have shown := shownLength_of_live rfl
            (OrderedMap.get?_set_self state.nodes node.id node) live notRoot
          constructor
          case nodup =>
            dsimp only
            rw [List.map_append, List.map_cons, List.nodup_middle, ← List.map_append,
              List.take_append_drop, List.nodup_cons]
            refine ⟨fun member => ?_, spanned.nodup⟩
            obtain ⟨span, listed, same⟩ := List.mem_map.mp member
            exact spanned.runId_ne absent span listed same
          case spans =>
            intro span
            simp only [List.perm_middle.mem_iff, List.take_append_drop, List.mem_cons]
            change _ ↔ shownLength (state.nodes.set node.id node) span.runId = some span.length
            by_cases same : span.runId = node.id
            · rw [same, shown, Option.some.injEq]
              constructor
              · rintro (rfl | member)
                · rfl
                · exact absurd same (spanned.runId_ne absent span member)
              · intro length
                left
                cases span
                simp_all
            · rw [shownLength_set_of_ne same, ← spanned.spans]
              apply or_iff_right
              rintro rfl
              exact same rfl

theorem Spanned.tombstone (spanned : Spanned state) (runId : String) :
    Spanned (state.tombstoneRun runId) := by
  rw [tombstoneRun]
  split
  · exact spanned
  · split
    · exact spanned
    · constructor
      case nodup => exact spanned.nodup.sublist (List.filter_sublist.map _)
      case spans =>
        intro span
        simp only [List.mem_filter, bne_iff_ne, spanned.spans]
        by_cases same : span.runId = runId
        · rw [same, shownLength_of_deleted (OrderedMap.get?_set_self _ _ _) rfl]
          simp
        · rw [shownLength_set_of_ne same]
          simp [same]

theorem Spanned.extend (spanned : Spanned state) (listed : Listed state) (runId : String)
    (appendText : List UInt16) (hlc : HLCTimestamp) :
    Spanned (state.applyExtendRun runId appendText hlc) := by
  rw [applyExtendRun]
  split
  · exact spanned
  · next node found =>
      split
      · exact spanned
      · next shows =>
          have live : node.deleted = false := Bool.not_eq_true _ ▸ shows
          exact @Spanned.write state runId { node with text := node.text ++ appendText, hlc }
            spanned listed node found live (listed.named runId node found) live
            (fun span => { span with length := span.length + appendText.length }) (fun _ => rfl)
            List.length_append.symm _

theorem Spanned.replace (spanned : Spanned state) (listed : Listed state) (runId : String)
    (newNode : RunNode) : Spanned (state.applySetRun runId newNode) := by
  rw [applySetRun]
  split
  · exact spanned
  · next existing found =>
      split
      · exact spanned
      · next shows =>
          have live : existing.deleted = false := Bool.not_eq_true _ ▸ shows
          exact @Spanned.write state runId { newNode with
            id := runId
            parentId := existing.parentId
            deleted := false } spanned listed existing found live rfl rfl
            (fun span => { span with length := newNode.text.length }) (fun _ => rfl) rfl _

theorem Spanned.split (spanned : Spanned state) (listed : Listed state) {runId : String}
    {offset : Int} (spares : runId = rootId → ¬ state.Cuts rootId offset) :
    Spanned (state.applySplit runId offset) := by
  rcases applySplit_cases state runId offset with
    unchanged | ⟨node, found, positive, inside, fresh⟩
  · rw [unchanged]
    exact spanned
  · have same := (applySplit_spec found positive inside fresh).1
    have spans := spans_applySplit found positive inside fresh
    have named := listed.named runId node found
    have apart := makeSplitId_ne_self runId offset
    have elsewhere : ∀ id, id ≠ runId → id ≠ makeSplitId runId offset →
        shownLength (state.applySplit runId offset).nodes id = shownLength state.nodes id := by
      intro id notLeft notRight
      rw [same.shownLength, shownLength_set_of_ne notRight, shownLength_set_of_ne notLeft]
    have left : ((state.nodes.set runId (leftHalf node offset)).set (makeSplitId runId offset)
        (rightHalf node runId offset)).get? runId = some (leftHalf node offset) := by
      rw [OrderedMap.get?_set_of_ne _ apart.symm, OrderedMap.get?_set_self]
    have right : ((state.nodes.set runId (leftHalf node offset)).set (makeSplitId runId offset)
        (rightHalf node runId offset)).get? (makeSplitId runId offset) =
          some (rightHalf node runId offset) := OrderedMap.get?_set_self _ _ _
    have absent := shownLength_of_absent fresh
    cases dead : node.deleted with
    | true =>
        rw [dead, if_pos rfl] at spans
        apply spanned.congr spans
        intro id
        by_cases atLeft : id = runId
        · rw [atLeft, same.shownLength, shownLength_of_deleted left dead,
            shownLength_of_deleted found dead]
        · by_cases atRight : id = makeSplitId runId offset
          · rw [atRight, same.shownLength, shownLength_of_deleted right dead, absent]
          · exact elsewhere id atLeft atRight
    | false =>
        have notRoot : runId ≠ rootId := by
          rintro rfl
          exact spares rfl ⟨node, found, dead, positive, inside⟩
        obtain ⟨before, after, whole, outBefore, outAfter⟩ :=
          spanned.around (shownLength_of_live named found dead notRoot)
        have leftLength := (same.shownLength runId).trans
          (@shownLength_of_live _ _ (leftHalf node offset) named left dead notRoot)
        have rightLength := (same.shownLength (makeSplitId runId offset)).trans
          (@shownLength_of_live _ _ (rightHalf node runId offset) rfl right dead
            (makeSplitId_ne_root runId offset))
        have cut : (node.text.take offset.toNat).length = offset.toNat := by
          rw [List.length_take]
          omega
        rw [dead, if_neg Bool.false_ne_true, whole, findIdx?_of_apart outBefore rfl] at spans
        dsimp only at spans
        rw [List.take_left, drop_middle] at spans
        simp only [leftHalf, rightHalf, cut, List.length_drop] at leftLength rightLength
        have new := spanned.runId_ne absent
        have nodup := spanned.nodup
        have known := spanned.spans
        rw [whole] at new nodup known
        simp only [List.mem_append, List.mem_cons] at new known
        constructor
        case nodup =>
          rw [spans]
          simp only [List.map_append, List.map_cons] at nodup ⊢
          rw [List.append_cons] at nodup ⊢
          apply nodup_middle nodup
          simp only [List.mem_append, List.mem_map, List.mem_singleton]
          grind
        case spans =>
          rintro ⟨id, length⟩
          rw [spans]
          simp only [List.mem_append, List.mem_cons, RunSpan.mk.injEq]
          by_cases atLeft : id = runId
          · have notBefore : RunSpan.mk id length ∉ before := fun member =>
              outBefore _ member atLeft
            have notAfter : RunSpan.mk id length ∉ after := fun member => outAfter _ member atLeft
            rw [atLeft] at notBefore notAfter ⊢
            simp [leftLength, notBefore, notAfter, apart.symm, eq_comm]
          · by_cases atRight : id = makeSplitId runId offset
            · have notBefore : RunSpan.mk id length ∉ before := fun member =>
                new _ (.inl member) atRight
              have notAfter : RunSpan.mk id length ∉ after := fun member =>
                new _ (.inr (.inr member)) atRight
              rw [atRight] at notBefore notAfter ⊢
              simp [rightLength, notBefore, notAfter, apart, eq_comm]
            · rw [elsewhere id atLeft atRight, ← known (RunSpan.mk id length)]
              simp [atLeft, atRight]

theorem Spanned.deleteRange (spanned : Spanned state) (listed : Listed state) {runId : String}
    {offset count : Int} (spares : SparesRoot state (.reduce (.deleteRange runId offset count))) :
    Spanned (state.applyDeleteRange runId offset count) := by
  rw [applyDeleteRange]
  split
  · exact spanned
  · split
    · exact spanned
    · dsimp only
      split
      · exact spanned
      · split
        · exact spanned.tombstone runId
        · split
          · next front =>
              apply (spanned.split listed _).tombstone
              intro same
              have ends := (spares same).2
              rwa [front, Int.zero_add] at ends
          · have first := spanned.split listed fun same => (spares same).1
            split
            · exact first.tombstone _
            · exact (first.split (listed.split runId offset) fun same =>
                absurd same (makeSplitId_ne_root runId offset)).tombstone _

end Spanned

/-! ## Runs -/

section Runs

variable {state : DocState}

theorem spanned_createDocState : Spanned createDocState where
  nodup := List.nodup_nil
  spans := by
    intro span
    have bare : shownLength createDocState.nodes span.runId = none := by
      by_cases same : span.runId = rootId
      · rw [same]
        exact shownLength_root listed_createDocState
      · apply shownLength_of_absent
        exact OrderedMap.get?_set_of_ne _ same _
    rw [bare]
    exact iff_of_false List.not_mem_nil nofun

theorem Spanned.fieldUpdate (spanned : Spanned state) (listed : Listed state) (runId : String)
    (field : Option RunNode) : Spanned (state.applyRunFieldUpdate runId field).1 := by
  rcases applyRunFieldUpdate_cases state runId field with
    same | ⟨node, found, live, deletes⟩ | ⟨newNode, _, replaces⟩ | ⟨newNode, base, start, _, inserts⟩
  · rw [same]
    exact spanned
  · rw [deletes]
    split
    · exact spanned
    · exact spanned.tombstone runId
  · rw [replaces]
    exact spanned.replace listed runId newNode
  · rw [inserts]
    rcases start with rfl | rfl
    · exact spanned.insert listed newNode
    · rw [withPlaceholder]
      split
      · exact (spanned.insert listed _).insert (listed.insert _) newNode
      · exact spanned.insert listed newNode

theorem Spanned.fieldUpdates (spanned : Spanned state) (listed : Listed state)
    (updates : List (String × Option RunNode)) :
    Spanned (state.applyRunFieldUpdates updates).1 := by
  induction updates generalizing state with
  | nil => exact spanned
  | cons update rest induction =>
      rw [applyRunFieldUpdates_cons]
      exact induction (spanned.fieldUpdate listed _ _) (kept_listed.fieldUpdate listed _ _)

theorem spanned_of_run {edits : List Edit} {final : DocState}
    (spares : machine.Meets SparesRoot createDocState edits)
    (reached : machine.run createDocState edits = some final) : Listed final ∧ Spanned final := by
  have preserved : ∀ (state : DocState) change next, Listed state ∧ Spanned state →
      SparesRoot state change → machine.step state change = some next →
        Listed next ∧ Spanned next := by
    rintro state change next ⟨listed, spanned⟩ spares stepped
    cases stepped
    refine ⟨kept_listed.edit listed change, ?_⟩
    cases change with
    | fields updates => exact spanned.fieldUpdates listed updates
    | reduce action =>
        cases action with
        | insertRun node => exact spanned.insert listed node
        | deleteRange runId offset count => exact spanned.deleteRange listed spares
        | split runId offset => exact spanned.split listed spares
        | extendRun runId appendText hlc => exact spanned.extend listed runId appendText hlc
  exact Machine.run_preserves preserved ⟨listed_createDocState, spanned_createDocState⟩ spares reached

end Runs

end DocState

end Ebb.Text
