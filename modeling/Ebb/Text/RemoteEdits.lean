import Ebb.Text.DocumentOrder
import Ebb.Text.EditorBridge

namespace Ebb.Text

/-! The editor follows remote edits as long as every event of a batch finds its place: the
runs before it shown at the lengths the id map has for them, and nothing shown between an
inserted run and its parent. -/

/-! ## Ranges of runs -/

theorem findRangeFrom_middle {before after : List RunSpan} {span : RunSpan}
    (apart : ∀ other ∈ before, other.runId ≠ span.runId) (cumulative : Nat) :
    findRangeFrom span.runId (before ++ span :: after) cumulative = some {
      start := cumulative + (before.map RunSpan.length).sum
      stop := cumulative + (before.map RunSpan.length).sum + span.length } := by
  induction before generalizing cumulative with
  | nil =>
      rw [List.nil_append, findRangeFrom, if_pos rfl]
      rfl
  | cons head rest induction =>
      rw [List.cons_append, findRangeFrom, if_neg (apart head List.mem_cons_self),
        induction fun other member => apart other (List.mem_cons_of_mem _ member)]
      rw [List.map_cons, List.sum_cons, Nat.add_assoc cumulative]

theorem findRangeFrom_of_absent {spans : List RunSpan} {runId : String}
    (absent : ∀ span ∈ spans, span.runId ≠ runId) (cumulative : Nat) :
    findRangeFrom runId spans cumulative = none := by
  induction spans generalizing cumulative with
  | nil => rfl
  | cons head rest induction =>
      rw [findRangeFrom, if_neg (absent head List.mem_cons_self)]
      exact induction (fun span member => absent span (List.mem_cons_of_mem _ member)) _

theorem ensureRootSpan_of_ne_nil {spans : List RunSpan} (listed : spans ≠ []) :
    ensureRootSpan spans = spans := by
  rw [ensureRootSpan, if_neg fun none => listed (List.length_eq_zero_iff.mp none)]

namespace DocState

section Ranges

variable {listed : DocState} {tree : Forest String} {order : List String}

theorem Lists.spans_along (lists : Lists listed tree) (grown : Grown listed tree)
    (along : listed.order.Sublist order) (nodup : order.Nodup) :
    listed.index.spans = spansOf listed.nodes order := by
  have rest : ∀ id ∈ order, id ∉ listed.order → shown listed.nodes id = none := by
    intro id _ unlisted
    rw [grown.mem_order, Option.not_isSome_iff_eq_none] at unlisted
    rw [shown, unlisted]
    rfl
  rw [lists.spans_eq grown, spansOf, spansOf, filterMap_of_sublist along nodup rest]

theorem sum_spansOf (nodes : OrderedMap String RunNode) (ids : List String) :
    ((spansOf nodes ids).map RunSpan.length).sum =
      (ids.flatMap fun id => ((shown nodes id).map RunNode.text).getD []).length := by
  induction ids with
  | nil => rfl
  | cons id rest induction =>
      rw [spansOf_cons, List.map_append, List.sum_append, induction, List.flatMap_cons,
        List.length_append]
      cases shown nodes id with
      | none => rfl
      | some node => rfl

theorem Lists.findRunRange_shown (lists : Lists listed tree) (grown : Grown listed tree)
    (along : listed.order.Sublist order) (nodup : order.Nodup) {before after : List String}
    {runId : String} (whole : order = before ++ runId :: after)
    (visible : (shown listed.nodes runId).isSome = true) :
    findRunRange (ensureRootSpan listed.index.spans) runId = some {
      start := (before.flatMap listed.textOf).length
      stop := (before.flatMap listed.textOf).length + (listed.textOf runId).length } := by
  rcases Option.isSome_iff_exists.mp visible with ⟨node, shows⟩
  have named : node.span.runId = runId := grown.named runId node (shown_eq_some.mp shows).1
  have spans : listed.index.spans =
      spansOf listed.nodes before ++ node.span :: spansOf listed.nodes after := by
    rw [lists.spans_along grown along nodup, whole, spansOf_append, spansOf_cons, shows]
    rfl
  have apart : ∀ other ∈ spansOf listed.nodes before, other.runId ≠ node.span.runId := by
    intro other member same
    rw [whole, List.nodup_append] at nodup
    exact nodup.2.2 _ (runId_of_mem_spansOf grown.named member) runId List.mem_cons_self
      (same.trans named)
  have length : node.span.length = (listed.textOf runId).length := by
    rw [textOf, shows]
    rfl
  rw [ensureRootSpan_of_ne_nil (by rw [spans]; simp), spans, findRunRange, ← named,
    findRangeFrom_middle apart, Nat.zero_add, sum_spansOf, length, named]
  rfl

theorem Lists.findRunRange_hidden (lists : Lists listed tree) (grown : Grown listed tree)
    {runId : String} (hidden : shown listed.nodes runId = none) :
    findRunRange (ensureRootSpan listed.index.spans) runId = none ∨
      runId = rootId ∧ findRunRange (ensureRootSpan listed.index.spans) runId =
        some { start := 0, stop := 0 } := by
  by_cases empty : listed.index.spans = []
  · rw [empty]
    by_cases root : runId = rootId
    · right
      subst root
      exact ⟨rfl, rfl⟩
    · left
      apply findRangeFrom_of_absent
      intro span member
      rw [List.mem_singleton.mp member]
      exact Ne.symm root
  · left
    rw [ensureRootSpan_of_ne_nil empty]
    apply findRangeFrom_of_absent
    intro span member same
    rw [lists.spans] at member
    rcases shown_of_mem_spansOf grown.named member with ⟨node, shows⟩
    rw [same, hidden] at shows
    cases shows

end Ranges

/-! ## Events in place -/

/-- The editor shows every one of some runs at the length its span has. -/
def Current (listed : DocState) (shows : String → List UInt16) (ids : List String) : Prop :=
  ∀ id ∈ ids, (listed.textOf id).length = (shows id).length

def Hidden (shows : String → List UInt16) (ids : List String) : Prop := ∀ id ∈ ids, shows id = []

instance (listed : DocState) (shows : String → List UInt16) (ids : List String) :
    Decidable (Current listed shows ids) := by
  unfold Current
  infer_instance

instance (shows : String → List UInt16) (ids : List String) : Decidable (Hidden shows ids) := by
  unfold Hidden
  infer_instance

/-- The editor shows all runs up to one at the lengths their spans have. -/
def CurrentUpTo (listed final : DocState) (shows : String → List UInt16) (runId : String) : Prop :=
  ∃ before after, final.order = before ++ runId :: after ∧ Current listed shows (before ++ [runId])

/-- A new run comes next in what the editor shows: after its parent, or first where the id
map has no span for the parent. -/
def ComesNext (listed final : DocState) (shows : String → List UInt16) (node : RunNode) : Prop :=
  if (shown listed.nodes node.parentId).isSome then
    ∃ before middle after,
      final.order = before ++ node.parentId :: (middle ++ node.id :: after) ∧
        Current listed shows (before ++ [node.parentId]) ∧ Hidden shows middle
  else ∃ before after, final.order = before ++ node.id :: after ∧ Hidden shows before

/-- An event finds its place, where the id map has the spans of `listed`, the document is
`final` and the editor shows what `shows` says. -/
def EventMeets (listed final : DocState) (shows : String → List UInt16) (event : AppliedUpdate) :
    Prop :=
  carriageReturn ∉ final.textOf event.runId ∧
    match event.kind with
    | .tombstone =>
        final.textOf event.runId = [] ∧
          if (shown listed.nodes event.runId).isSome then
            CurrentUpTo listed final shows event.runId
          else shows event.runId = []
    | .extend =>
        if (shown listed.nodes event.runId).isSome ∧ (shown final.nodes event.runId).isSome then
          CurrentUpTo listed final shows event.runId
        else shows event.runId = final.textOf event.runId
    | .insert =>
        shows event.runId = [] ∧
          ∀ node, final.nodes.get? event.runId = some node → node.deleted = false →
            ComesNext listed final shows node

/-- The events of a batch find their places one after the other. From the second on the id
map has the final spans. -/
def EventsMeet (final : DocState) : DocState → (String → List UInt16) → List AppliedUpdate → Prop
  | _, _, [] => True
  | listed, shows, event :: rest =>
      EventMeets listed final shows event ∧
        EventsMeet final final
          (Function.update shows event.runId (final.textOf event.runId)) rest

section Handling

variable {editor : CodeMirror} {listed final : DocState} {tree finalTree : Forest String}
  {shows : String → List UInt16}

theorem Current.length_flatMap {ids : List String} (current : Current listed shows ids) :
    (ids.flatMap listed.textOf).length = (ids.flatMap shows).length := by
  rw [List.length_flatMap, List.length_flatMap]
  exact congrArg List.sum (List.map_congr_left current)

theorem Hidden.flatMap_eq_nil {ids : List String} (hidden : Hidden shows ids) :
    ids.flatMap shows = [] := List.flatMap_eq_nil_iff.mpr hidden

variable {runId : String} {events : List AppliedUpdate}

theorem change_run (documented : editor.Documented) {before after : List String}
    (nodup : (before ++ runId :: after).Nodup) {text : List UInt16} (plain : carriageReturn ∉ text)
    {start stop : Nat} (starts : start = (before.flatMap shows).length)
    (stops : stop = (before.flatMap shows).length + (shows runId).length) :
    editor.change ((before ++ runId :: after).flatMap shows) { start, stop, insert := text } =
      some ((before ++ runId :: after).flatMap (Function.update shows runId text)) := by
  subst starts
  subst stops
  rw [documented _ _ (Nat.le_add_right _ _) ?_ plain, splice_flatMap nodup]
  rw [List.flatMap_append, List.flatMap_cons, List.length_append, List.length_append]
  dsimp only
  omega

theorem change_nothing (documented : editor.Documented)
    (text : List UInt16) : editor.change text { start := 0, stop := 0, insert := [] } =
      some text := by
  rw [documented text _ (Nat.le_refl 0) (Nat.zero_le _) List.not_mem_nil]
  rfl

variable {view : EditorView}

theorem tombstone_handled (documented : editor.Documented) (lists : Lists listed tree)
    (grown : Grown listed tree) (finalGrown : Grown final finalTree)
    (along : listed.order.Sublist final.order) (text : view.text = final.order.flatMap shows)
    (idMap : view.idMap = ensureRootSpan listed.index.spans)
    (meets : EventMeets listed final shows { runId, kind := .tombstone }) :
    editor.dispatch view.text (cmChanges view.idMap final false { runId, kind := .tombstone }) =
      some (final.order.flatMap (Function.update shows runId (final.textOf runId))) := by
  rcases meets with ⟨_, gone, place⟩
  dsimp only at gone place
  rw [cmChanges, idMap, text, gone]
  by_cases visible : (shown listed.nodes runId).isSome = true
  · rw [if_pos visible] at place
    rcases place with ⟨before, after, whole, current⟩
    have nodup := finalGrown.order_nodup
    have range := lists.findRunRange_shown grown along nodup whole visible
    have starts := Current.length_flatMap fun id member =>
      current id (List.mem_append_left _ member)
    have stops := current runId (List.mem_append_right _ List.mem_cons_self)
    dsimp only
    rw [range]
    rw [whole] at nodup ⊢
    exact change_run documented nodup List.not_mem_nil starts (by rw [starts, stops])
  · rw [if_neg visible] at place
    have kept : Function.update shows runId [] = shows := by
      rw [← place, Function.update_eq_self]
    rw [kept]
    dsimp only
    rcases lists.findRunRange_hidden grown (Option.not_isSome_iff_eq_none.mp visible) with
      none | ⟨_, placeholder⟩
    · rw [none]
      rfl
    · rw [placeholder]
      exact change_nothing documented _

theorem extend_handled (documented : editor.Documented) (lists : Lists listed tree)
    (grown : Grown listed tree) (finalGrown : Grown final finalTree)
    (along : listed.order.Sublist final.order) (text : view.text = final.order.flatMap shows)
    (idMap : view.idMap = ensureRootSpan listed.index.spans)
    (meets : EventMeets listed final shows { runId, kind := .extend }) :
    editor.dispatch view.text (cmChanges view.idMap final false { runId, kind := .extend }) =
      some (final.order.flatMap (Function.update shows runId (final.textOf runId))) := by
  rcases meets with ⟨plain, place⟩
  dsimp only at plain place
  rw [cmChanges, idMap, text]
  dsimp only
  by_cases both : (shown listed.nodes runId).isSome ∧ (shown final.nodes runId).isSome
  · rw [if_pos both] at place
    rcases place with ⟨before, after, whole, current⟩
    rcases Option.isSome_iff_exists.mp both.2 with ⟨node, visible⟩
    rcases shown_eq_some.mp visible with ⟨found, visible⟩
    have live : node.deleted = false := by
      rw [RunNode.visible, Bool.and_eq_true, Bool.not_eq_true'] at visible
      exact visible.1
    have nodup := finalGrown.order_nodup
    have range := lists.findRunRange_shown grown along nodup whole both.1
    have starts := Current.length_flatMap fun id member =>
      current id (List.mem_append_left _ member)
    have stops := current runId (List.mem_append_right _ List.mem_cons_self)
    rw [range, found]
    dsimp only
    rw [live, if_neg (by decide), ← finalGrown.textOf_live found live]
    rw [whole] at nodup ⊢
    exact change_run documented nodup plain starts (by rw [starts, stops])
  · rw [if_neg both] at place
    rw [← place, Function.update_eq_self]
    cases visible : shown listed.nodes runId with
    | none =>
        rcases lists.findRunRange_hidden grown visible with none | ⟨root, placeholder⟩
        · rw [none]
          rfl
        · rw [placeholder]
          rcases finalGrown.root with ⟨node, found, empty, live⟩
          rw [root, found]
          dsimp only
          rw [live, if_neg (by decide), empty]
          exact change_nothing documented _
    | some listedNode =>
        have other : runId ≠ rootId := by
          rintro rfl
          rw [grown.shown_root] at visible
          cases visible
        have hidden : shown final.nodes runId = none := by
          rw [visible] at both
          exact Option.not_isSome_iff_eq_none.mp fun isShown => both ⟨rfl, isShown⟩
        cases found : final.nodes.get? runId with
        | none =>
            split
            · next impossible =>
                cases impossible
            · rfl
        | some node =>
            have deleted : node.deleted = true := by
              by_contra live
              rw [shown_of_live finalGrown found (Bool.not_eq_true _ ▸ live), if_neg other] at hidden
              cases hidden
            split
            · next same =>
                cases same
                rw [deleted]
                rfl
            · rfl

theorem insert_handled (documented : editor.Documented) (lists : Lists listed tree)
    (grown : Grown listed tree) (finalGrown : Grown final finalTree)
    (along : listed.order.Sublist final.order) (text : view.text = final.order.flatMap shows)
    (idMap : view.idMap = ensureRootSpan listed.index.spans)
    (meets : EventMeets listed final shows { runId, kind := .insert }) :
    editor.dispatch view.text (cmChanges view.idMap final false { runId, kind := .insert }) =
      some (final.order.flatMap (Function.update shows runId (final.textOf runId))) := by
  rcases meets with ⟨plain, unseen, place⟩
  dsimp only at plain unseen place
  rw [cmChanges, idMap, text]
  dsimp only
  cases found : final.nodes.get? runId with
  | none =>
      rw [textOf_of_absent found, ← unseen, Function.update_eq_self]
      rfl
  | some node =>
      cases live : node.deleted with
      | true =>
          rw [textOf_of_deleted found live, ← unseen, Function.update_eq_self]
          dsimp only
          rw [live]
          rfl
      | false =>
          have place := place node found live
          have named := finalGrown.named runId node found
          have nodup := finalGrown.order_nodup
          rw [finalGrown.textOf_live found live] at plain ⊢
          rw [ComesNext, named] at place
          dsimp only
          rw [live, if_neg (by decide)]
          by_cases visible : (shown listed.nodes node.parentId).isSome = true
          · rw [if_pos visible] at place
            rcases place with ⟨before, middle, after, whole, current, hidden⟩
            have range := lists.findRunRange_shown grown along nodup whole visible
            rw [range]
            rw [List.append_cons, ← List.append_assoc] at whole
            rw [whole] at nodup ⊢
            have starts : (before.flatMap listed.textOf).length +
                (listed.textOf node.parentId).length =
                  ((before ++ [node.parentId] ++ middle).flatMap shows).length := by
              have length := Current.length_flatMap current
              rw [List.flatMap_append, List.length_append, List.flatMap_singleton] at length
              rw [length]
              simp only [List.flatMap_append, Hidden.flatMap_eq_nil hidden, List.append_nil]
            apply change_run documented nodup plain starts
            rw [unseen]
            exact starts
          · rw [if_neg visible] at place
            rcases place with ⟨before, after, whole, hidden⟩
            have atStart : ((findRunRange (ensureRootSpan listed.index.spans) node.parentId).map
                RunRange.stop).getD 0 = 0 := by
              rcases lists.findRunRange_hidden grown
                (Option.not_isSome_iff_eq_none.mp visible) with none | ⟨_, placeholder⟩
              · rw [none]
                rfl
              · rw [placeholder]
                rfl
            have starts : 0 = (before.flatMap shows).length := by
              rw [Hidden.flatMap_eq_nil hidden]
              rfl
            rw [atStart]
            rw [whole] at nodup ⊢
            apply change_run documented nodup plain starts
            rw [unseen]
            exact starts

theorem event_handled (documented : editor.Documented) (lists : Lists listed tree)
    (grown : Grown listed tree) (finalGrown : Grown final finalTree)
    (along : listed.order.Sublist final.order) (text : view.text = final.order.flatMap shows)
    (idMap : view.idMap = ensureRootSpan listed.index.spans) {event : AppliedUpdate}
    (meets : EventMeets listed final shows event) :
    applyDocUpdateToCM editor final false view event = {
      text := final.order.flatMap (Function.update shows event.runId (final.textOf event.runId))
      idMap := ensureRootSpan final.index.spans } := by
  have dispatched : editor.dispatch view.text (cmChanges view.idMap final false event) =
      some (final.order.flatMap
        (Function.update shows event.runId (final.textOf event.runId))) := by
    cases event with
    | mk runId kind =>
        cases kind with
        | tombstone =>
            exact tombstone_handled documented lists grown finalGrown along text idMap meets
        | extend => exact extend_handled documented lists grown finalGrown along text idMap meets
        | insert => exact insert_handled documented lists grown finalGrown along text idMap meets
  rw [applyDocUpdateToCM, dispatched]

def shownAfter (final : DocState) (shows : String → List UInt16) (events : List AppliedUpdate) :
    String → List UInt16 :=
  events.foldl
    (fun shows event => Function.update shows event.runId (final.textOf event.runId)) shows

theorem shownAfter_of_apart {id : String} (apart : ∀ event ∈ events, event.runId ≠ id)
    : shownAfter final shows events id = shows id := by
  induction events generalizing shows with
  | nil => rfl
  | cons event rest induction =>
      rw [shownAfter, List.foldl_cons, ← shownAfter,
        induction fun other member => apart other (List.mem_cons_of_mem _ member)]
      exact Function.update_of_ne (Ne.symm (apart event List.mem_cons_self)) _ _

theorem shownAfter_of_mem {id : String} (member : ∃ event ∈ events, event.runId = id) :
    shownAfter final shows events id = final.textOf id := by
  induction events generalizing shows with
  | nil =>
      rcases member with ⟨_, impossible, _⟩
      cases impossible
  | cons head rest induction =>
      rw [shownAfter, List.foldl_cons, ← shownAfter]
      by_cases later : ∃ event ∈ rest, event.runId = id
      · exact induction later
      · rcases member with ⟨event, member, rfl⟩
        have here : event = head :=
          (List.mem_cons.mp member).resolve_right fun member => later ⟨event, member, rfl⟩
        rw [shownAfter_of_apart fun other member same => later ⟨other, member, same⟩, here]
        exact Function.update_self _ _ _

theorem events_handled (documented : editor.Documented) (lists : Lists listed tree)
    (grown : Grown listed tree) (finalLists : Lists final finalTree)
    (finalGrown : Grown final finalTree) (along : listed.order.Sublist final.order)
    (text : view.text = final.order.flatMap shows)
    (idMap : view.idMap = ensureRootSpan listed.index.spans)
    (meets : EventsMeet final listed shows events) :
    (events.foldl (applyDocUpdateToCM editor final false) view).text =
        final.order.flatMap (shownAfter final shows events) ∧
      (events ≠ [] → (events.foldl (applyDocUpdateToCM editor final false) view).idMap =
        ensureRootSpan final.index.spans) := by
  induction events generalizing listed tree shows view with
  | nil => exact ⟨text, fun some => absurd rfl some⟩
  | cons event rest induction =>
      have handled := event_handled documented lists grown finalGrown along text idMap meets.1
      rw [List.foldl_cons, handled]
      have later := @induction final finalTree
        (Function.update shows event.runId (final.textOf event.runId)) {
          text := final.order.flatMap
            (Function.update shows event.runId (final.textOf event.runId))
          idMap := ensureRootSpan final.index.spans }
        finalLists finalGrown (List.Sublist.refl _) rfl rfl meets.2
      refine ⟨later.1, fun _ => ?_⟩
      by_cases none : rest = []
      · rw [none]
        rfl
      · exact later.2 none

end Handling

/-! ## Batches -/

section Batches

variable {state : DocState}

/-- The events of some run fields, and the document they leave. -/
def eventsOf (state : DocState) (updates : List (String × Option RunNode)) : List AppliedUpdate :=
  (state.applyRunFieldUpdates updates).2.filterMap appliedToEvent

theorem textOf_fieldUpdate {runId id : String} {field : Option RunNode}
    (apart : ∀ event ∈ (state.applyRunFieldUpdate runId field).2.filterMap appliedToEvent,
      event.runId ≠ id) :
    (state.applyRunFieldUpdate runId field).1.textOf id = state.textOf id := by
  rcases applyRunFieldUpdate_cases state runId field with
    kept | ⟨node, found, live, deletes⟩ | ⟨newNode, root, replaces⟩ |
      ⟨newNode, base, start, place, inserts⟩
  · rw [kept]
  · rw [deletes] at apart ⊢
    have other : runId ≠ id := apart _ List.mem_cons_self
    dsimp only
    split
    · rfl
    · exact textOf_tombstoneRun_of_ne other.symm
  · rw [replaces] at apart ⊢
    have other : runId ≠ id := apart _ List.mem_cons_self
    exact textOf_applySetRun_of_ne other.symm newNode
  · rw [inserts] at apart ⊢
    have other : newNode.id ≠ id := apart _ List.mem_cons_self
    rw [textOf_applyInsertRun_of_ne other.symm]
    rcases start with rfl | rfl
    · rfl
    · exact textOf_withPlaceholder newNode id

theorem fieldUpdate_of_silent {runId : String} {field : Option RunNode}
    (silent : (state.applyRunFieldUpdate runId field).2.filterMap appliedToEvent = []) :
    (state.applyRunFieldUpdate runId field).1 = state := by
  rcases applyRunFieldUpdate_cases state runId field with
    kept | ⟨node, found, live, deletes⟩ | ⟨newNode, root, replaces⟩ |
      ⟨newNode, base, start, place, inserts⟩
  · rw [kept]
  · rw [deletes] at silent
    cases silent
  · rw [replaces] at silent
    cases silent
  · rw [inserts] at silent
    cases silent

theorem textOf_fieldUpdates {id : String} {updates : List (String × Option RunNode)}
    (apart : ∀ event ∈ eventsOf state updates, event.runId ≠ id) :
    (state.applyRunFieldUpdates updates).1.textOf id = state.textOf id := by
  induction updates generalizing state with
  | nil => rfl
  | cons update rest induction =>
      rw [eventsOf, applyRunFieldUpdates_cons] at apart
      dsimp only at apart
      rw [List.filterMap_append] at apart
      rw [applyRunFieldUpdates_cons]
      dsimp only
      rw [induction fun event member => apart event (List.mem_append_right _ member)]
      exact textOf_fieldUpdate fun event member => apart event (List.mem_append_left _ member)

theorem fieldUpdates_of_silent {updates : List (String × Option RunNode)}
    (silent : eventsOf state updates = []) : (state.applyRunFieldUpdates updates).1 = state := by
  induction updates generalizing state with
  | nil => rfl
  | cons update rest induction =>
      rw [eventsOf, applyRunFieldUpdates_cons] at silent
      dsimp only at silent
      rw [List.filterMap_append, List.append_eq_nil_iff] at silent
      rw [applyRunFieldUpdates_cons]
      dsimp only
      rw [induction silent.2]
      exact fieldUpdate_of_silent silent.1

def withFields (result : DocState × List DocAction) (fields : List (String × Option RunNode)) :
    DocState × List DocAction :=
  ((result.1.applyRunFieldUpdates fields).1,
    result.2 ++ (result.1.applyRunFieldUpdates fields).2)

variable (result : DocState × List DocAction)

theorem withFields_append (first second : List (String × Option RunNode)) :
    withFields (withFields result first) second = withFields result (first ++ second) := by
  rw [withFields, withFields, withFields, applyRunFieldUpdates_append, List.append_assoc]

theorem withFields_nil : withFields result [] = result := by
  change (result.1, result.2 ++ []) = result
  rw [List.append_nil]

theorem foldl_withFields {β : Type} {step : DocState × List DocAction → β →
    DocState × List DocAction}
    {fieldsOf : β → List (String × Option RunNode)}
    (applies : ∀ result item, step result item = withFields result (fieldsOf item))
    (items : List β) (result : DocState × List DocAction) :
    items.foldl step result = withFields result (items.flatMap fieldsOf) := by
  induction items generalizing result with
  | nil => exact (withFields_nil result).symm
  | cons item rest induction =>
      rw [List.foldl_cons, induction, applies, withFields_append, List.flatMap_cons]

def fieldsOfUpdate (docType : String) (update : Update RunValue) :
    List (String × Option RunNode) :=
  if update.subjectType = docType then readRunFields update else []

/-- The run fields of a batch, in the order they are applied. -/
def runFields (docType : String) (actions : List (Action RunValue)) :
    List (String × Option RunNode) :=
  actions.flatMap fun action => action.updates.flatMap (fieldsOfUpdate docType)

theorem applyWireUpdate_eq (docType : String) (result : DocState × List DocAction)
    (update : Update RunValue) :
    applyWireUpdate docType result update =
      withFields result (fieldsOfUpdate docType update) := by
  rw [applyWireUpdate, fieldsOfUpdate]
  by_cases same : update.subjectType = docType
  · rw [if_neg (not_not_intro same), if_pos same]
    dsimp only
    split
    · next none =>
        rw [List.length_eq_zero_iff.mp none, withFields_nil]
    · rfl
  · rw [if_pos same, if_neg same, withFields_nil]

theorem applyWireActions_eq (state : DocState) (actions : List (Action RunValue))
    (docType : String) :
    applyWireActions state actions docType =
      state.applyRunFieldUpdates (runFields docType actions) := by
  rw [applyWireActions,
    foldl_withFields fun result (action : Action RunValue) =>
      foldl_withFields (applyWireUpdate_eq docType) action.updates result]
  rfl

end Batches

end DocState

/-! ## Runs of batches -/

namespace Mounted

/-- The editor shows the document, and the id map has the spans of its runs. -/
structure Mirrors (mounted : Mounted) : Prop where
  sound : mounted.doc.state.Sound
  text : mounted.view.text = mounted.doc.state.reconstruct
  idMap : mounted.view.idMap = ensureRootSpan mounted.doc.state.index.spans

/-- Every run of a batch has a place in the index, and every event finds its place in the
editor. -/
def BatchMeets (mounted : Mounted) (actions : List (Action RunValue)) : Prop :=
  let state := mounted.doc.state
  let fields := DocState.runFields mounted.doc.docType actions
  DocState.FieldsMeet state fields ∧
    DocState.EventsMeet (state.applyRunFieldUpdates fields).1 state state.textOf
      (DocState.eventsOf state fields)

theorem mirrors_mountEditorBridge {editor : CodeMirror} (documented : editor.Documented)
    {view : EditorView} {doc : TextDocument} {localEdit : Bool} {mounted : Mounted}
    (sound : doc.state.Sound) (plain : carriageReturn ∉ doc.state.reconstruct)
    (mounts : mountEditorBridge editor view doc localEdit = some mounted) :
    Mirrors mounted := by
  rw [mountEditorBridge] at mounts
  split at mounts
  · rw [documented _ _ (Nat.zero_le _) (Nat.le_refl _) plain, Option.map_some] at mounts
    cases mounts
    refine ⟨sound, ?_, rfl⟩
    rw [splice, List.take_zero, List.nil_append, List.drop_length, List.append_nil]
  · next same =>
      cases mounts
      exact ⟨sound, not_not.mp same, rfl⟩

theorem Mirrors.applyActions {editor : CodeMirror} (documented : editor.Documented)
    {mounted : Mounted} (mirrors : Mirrors mounted) {actions : List (Action RunValue)}
    (meets : BatchMeets mounted actions) : Mirrors (mounted.applyActions editor actions) := by
  rw [Mounted.applyActions]
  by_cases empty : actions.length = 0
  · rw [if_pos empty]
    exact mirrors
  · rw [if_neg empty, DocState.applyWireActions_eq]
    rw [BatchMeets] at meets
    generalize DocState.runFields mounted.doc.docType actions = fields at meets ⊢
    rcases meets with ⟨fieldsMeet, eventsMeet⟩
    have sound := mirrors.sound.fieldUpdates fieldsMeet
    have along := mirrors.sound.order_fieldUpdates fieldsMeet
    have silent := @DocState.fieldUpdates_of_silent mounted.doc.state fields
    have unseen := fun id => @DocState.textOf_fieldUpdates mounted.doc.state id fields
    rw [DocState.eventsOf] at eventsMeet silent
    simp only [DocState.eventsOf] at unseen
    generalize mounted.doc.state.applyRunFieldUpdates fields = applied at *
    rcases applied with ⟨post, applied⟩
    dsimp only at sound along silent unseen eventsMeet ⊢
    generalize applied.filterMap appliedToEvent = events at *
    rcases mirrors.sound with ⟨tree, grown, lists⟩
    rcases sound with ⟨postTree, postGrown, postLists⟩
    have oldText : mounted.view.text = post.order.flatMap mounted.doc.state.textOf := by
      rw [mirrors.text, grown.reconstruct_eq]
      symm
      apply flatMap_of_sublist along postGrown.order_nodup
      intro id _ unlisted
      rw [grown.mem_order, Option.not_isSome_iff_eq_none] at unlisted
      exact DocState.textOf_of_absent unlisted
    have handled := DocState.events_handled documented lists grown postLists postGrown along oldText
      mirrors.idMap eventsMeet
    constructor
    case sound => exact ⟨postTree, postGrown, postLists⟩
    case text =>
      dsimp only
      rw [handled.1, postGrown.reconstruct_eq]
      apply List.flatMap_congr
      intro id _
      by_cases seen : ∃ event ∈ events, event.runId = id
      · exact DocState.shownAfter_of_mem seen
      · rw [DocState.shownAfter_of_apart fun event member same => seen ⟨event, member, same⟩]
        exact (unseen id fun event member same => seen ⟨event, member, same⟩).symm
    case idMap =>
      by_cases none : events = []
      · rw [none]
        dsimp only [List.foldl_nil]
        rw [silent none]
        exact mirrors.idMap
      · exact handled.2 none

def remote (editor : CodeMirror) (mounted : Mounted) : Machine Mounted (List (Action RunValue)) where
  initial := mounted
  step := fun mounted actions => some (mounted.applyActions editor actions)

theorem mirrors_of_batches {editor : CodeMirror} (documented : editor.Documented)
    {mounted final : Mounted} (mirrors : Mirrors mounted)
    {batches : List (List (Action RunValue))}
    (meets : (remote editor mounted).Meets BatchMeets mounted batches)
    (reached : (remote editor mounted).run mounted batches = some final) : Mirrors final := by
  have preserved : ∀ state actions next, Mirrors state → BatchMeets state actions →
      (remote editor mounted).step state actions = some next → Mirrors next := by
    intro state actions next mirrors meets stepped
    cases stepped
    exact mirrors.applyActions documented meets
  exact Machine.run_preserves preserved mirrors meets reached

/-! ### Short batches -/

def plainEditor : CodeMirror where
  change := fun text change =>
    if change.start ≤ change.stop ∧ change.stop ≤ text.length then
      some (splice text change.start change.stop change.insert)
    else none

theorem documented_plainEditor : plainEditor.Documented := by
  intro text change ordered inside _
  exact if_pos ⟨ordered, inside⟩

def mountedOn (state : DocState) : Mounted where
  view := { text := state.reconstruct, idMap := ensureRootSpan state.index.spans }
  doc := {
    actorId := "usr_1"
    docType := "text_document"
    state
    localHlcState := { l := 0, c := 0 }
    readings := 0 }
  localEdit := true

def contentAction (runs : List (String × RunValue)) : Action RunValue where
  id := "act_1"
  actorId := "usr_2"
  hlc := 9
  gsn := 1
  updates := [{
    id := "upd_1"
    subjectId := "doc_1"
    subjectType := "text_document"
    method := .patch
    data := some [(docContentField, .map (runs.map fun run =>
      (run.1, .leaf { value := run.2, updateId := "upd_1", hlc := some 9 })))] }]

def oneRun : DocState := createDocState.docReducer (.insertRun (DocState.run "1:usr_1" 1 [97, 98] rootId))

theorem sound_oneRun : oneRun.Sound :=
  DocState.sound_createDocState.reduce (.inr ⟨rfl, .inr (.inl ⟨rootNode, rfl, rfl⟩)⟩)

def splitBatch : List (Action RunValue) :=
  [contentAction [("1:usr_1", .run (DocState.run "1:usr_1" 1 [97] rootId)),
    ("1:usr_1:s:1", .run (DocState.run "1:usr_1:s:1" 1 [98] "1:usr_1")),
    ("2:usr_1", .run (DocState.run "2:usr_1" 2 [120] "1:usr_1"))]]

theorem mirrors_splitBatch :
    ((mountedOn oneRun).applyActions plainEditor splitBatch).view.text = [97, 120, 98] ∧
      Mirrors ((mountedOn oneRun).applyActions plainEditor splitBatch) := by
  refine ⟨rfl, ?_⟩
  apply @mirrors_of_batches plainEditor documented_plainEditor (mountedOn oneRun) _
    ⟨sound_oneRun, rfl, rfl⟩ [splitBatch] ?_ rfl
  refine ⟨⟨⟨?_, ?_, ?_, trivial⟩, ⟨?_, ?_⟩, ⟨?_, ?_⟩, ⟨?_, ?_⟩, trivial⟩, fun _ _ => trivial⟩
  · exact .inr fun same => absurd same (by decide)
  · exact .inr ⟨rfl, .inr (.inl ⟨_, rfl, rfl⟩)⟩
  · exact .inr ⟨rfl, .inr (.inl ⟨_, rfl, rfl⟩)⟩
  · decide
  · exact ⟨[rootId], ["2:usr_1", "1:usr_1:s:1"], rfl, fun _ _ => rfl⟩
  · decide
  · refine ⟨rfl, fun node found _ => ?_⟩
    cases found
    exact ⟨[rootId], ["2:usr_1"], [], rfl, by decide, by decide⟩
  · decide
  · refine ⟨rfl, fun node found _ => ?_⟩
    cases found
    exact ⟨[rootId], [], ["1:usr_1:s:1"], rfl, by decide, by decide⟩

def twoRuns : DocState :=
  oneRun.docReducer (.insertRun (DocState.run "0:usr_1" 0 [99] rootId))

theorem sound_twoRuns : twoRuns.Sound :=
  sound_oneRun.reduce (.inr ⟨rfl, .inr (.inl ⟨rootNode, rfl, rfl⟩)⟩)

/-- The bridge hears of two tombstones when the id map has lost both runs: the editor keeps
the text of the second. -/
theorem secondTombstone_kept :
    ¬ ∀ (editor : CodeMirror) (mounted : Mounted) (actions : List (Action RunValue)),
      editor.Documented → Mirrors mounted →
        (mounted.applyActions editor actions).view.text =
          (mounted.applyActions editor actions).doc.state.reconstruct := by
  intro mirrored
  have texts := mirrored plainEditor (mountedOn twoRuns)
    [contentAction [("1:usr_1", .null), ("0:usr_1", .null)]] documented_plainEditor
    ⟨sound_twoRuns, rfl, rfl⟩
  revert texts
  decide

end Mounted

end Ebb.Text
