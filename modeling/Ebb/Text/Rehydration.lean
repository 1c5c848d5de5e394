import Ebb.Text.EditPayloads

namespace Ebb.Text

/-! Hydrating a document again, after local edits. A run whose stored time is older than the
local one is passed over, but a split keeps the time of the run it cuts. -/

namespace DocState

/-! ## Settled runs -/

/-- What the map says of a run and what the document holds: the map's run is deleted here, is the
same or is older, or its tombstone finds no text. -/
def Agrees : Option RunNode → Option RunNode → Prop
  | none, none => True
  | none, some node => node.deleted = true ∨ node.text = []
  | some _, none => False
  | some incoming, some node => node.deleted = true ∨
      (incoming.text = node.text ∧ incoming.hlc = node.hlc ∧ incoming.actorId = node.actorId) ∨
      incoming.hlc < node.hlc

def Settled (state : DocState) (entry : String × Option RunNode) : Prop :=
  Agrees entry.2 (state.nodes.get? entry.1)

/-- The runs of a content map lie under their own ids. -/
def OwnIds (runs : List (String × Option RunNode)) : Prop :=
  ∀ runId node, (runId, some node) ∈ runs → node.id = runId

/-- A content map, as a client writes it: each id once, each run under its own. -/
structure Plain (runs : List (String × Option RunNode)) : Prop where
  nodup : (runs.map Prod.fst).Nodup
  ownIds : OwnIds runs

theorem agrees_deleted (field : Option RunNode) {node : RunNode} (deleted : node.deleted = true) :
    Agrees field (some node) := by
  cases field with
  | none => exact .inl deleted
  | some incoming => exact .inl deleted

theorem agrees_reparent (field : Option RunNode) (node : RunNode) (parentId : String) :
    Agrees field (some { node with parentId }) ↔ Agrees field (some node) := by
  cases field with
  | none => exact Iff.rfl
  | some incoming => exact Iff.rfl

section Updates

variable {state : DocState} {runId id : String} {field : Option RunNode}

theorem fieldUpdate_of_settled (own : ∀ node, field = some node → node.id = runId)
    (settled : Settled state (runId, field)) :
    (state.applyRunFieldUpdate runId field).1 = state := by
  rw [Settled] at settled
  cases field with
  | none =>
      rw [applyRunFieldUpdate]
      cases found : state.nodes.get? runId with
      | none => rfl
      | some node =>
          rw [found] at settled
          dsimp only
          cases dead : node.deleted with
          | true => rfl
          | false =>
              have empty : node.text = [] := settled.resolve_left (by rw [dead]; decide)
              rw [if_neg Bool.false_ne_true]
              dsimp only [docReducer]
              rw [applyDeleteRange_whole found dead, if_pos empty]
  | some incoming =>
      have named := own incoming rfl
      rw [applyRunFieldUpdate]
      cases found : state.nodes.get? runId with
      | none =>
          rw [found] at settled
          exact settled.elim
      | some node =>
          rw [found] at settled
          dsimp only
          split
          · change state.applyInsertRun incoming = state
            rw [applyInsertRun, if_pos (by rw [named, found]; rfl)]
          · next live =>
              split
              · rfl
              · next differs =>
                  have older := (settled.resolve_left live).resolve_left differs
                  rw [compareHlc, if_neg (Nat.lt_asymm older), if_pos older, if_pos (by decide)]

theorem fieldUpdates_of_settled {runs : List (String × Option RunNode)} (own : OwnIds runs)
    (settled : ∀ entry ∈ runs, Settled state entry) :
    (state.applyRunFieldUpdates runs).1 = state := by
  induction runs with
  | nil => rfl
  | cons entry rest induction =>
      have here : (state.applyRunFieldUpdate entry.1 entry.2).1 = state := by
        apply fieldUpdate_of_settled _ (settled entry List.mem_cons_self)
        intro node same
        exact own entry.1 node (same ▸ List.mem_cons_self)
      rw [applyRunFieldUpdates_cons]
      dsimp only
      rw [here]
      exact induction (fun runId node member => own runId node (List.mem_cons_of_mem _ member))
        fun other member => settled other (List.mem_cons_of_mem _ member)

variable {node : RunNode} {rest : List (String × Option RunNode)}

theorem get?_applyInsertRun_of_ne (apart : id ≠ node.id) :
    (state.applyInsertRun node).nodes.get? id = state.nodes.get? id := by
  rw [applyInsertRun]
  split
  · rfl
  · exact OrderedMap.get?_set_of_ne _ apart _

theorem get?_applyInsertRun_self (fresh : state.nodes.get? node.id = none) :
    (state.applyInsertRun node).nodes.get? node.id = some node := by
  rw [applyInsertRun, if_neg (by rw [fresh]; exact Bool.false_ne_true)]
  exact OrderedMap.get?_set_self _ _ _

theorem applyInsertRun_of_stored (stored : (state.nodes.get? node.id).isSome = true)
    : state.applyInsertRun node = state := by
  rw [applyInsertRun, if_pos stored]

theorem get?_applySetRun_of_ne (apart : id ≠ runId) (newNode : RunNode) :
    (state.applySetRun runId newNode).nodes.get? id = state.nodes.get? id := by
  rw [applySetRun]
  split
  · rfl
  · split
    · rfl
    · exact OrderedMap.get?_set_of_ne _ apart _

theorem get?_withPlaceholder (state : DocState) (node : RunNode) (id : String) :
    (state.withPlaceholder node).nodes.get? id = state.nodes.get? id ∨
      state.nodes.get? id = none ∧ ∃ placeholder,
        (state.withPlaceholder node).nodes.get? id = some placeholder ∧
          placeholder.deleted = true := by
  rw [withPlaceholder]
  split
  · next missing =>
      have absent : state.nodes.get? node.parentId = none := Option.isNone_iff_eq_none.mp missing.2
      by_cases same : id = node.parentId
      · subst same
        exact .inr ⟨absent, _, get?_applyInsertRun_self absent, rfl⟩
      · exact .inl (get?_applyInsertRun_of_ne same)
  · exact .inl rfl

theorem settled_fieldUpdate (own : ∀ node, field = some node → node.id = runId) :
    Settled (state.applyRunFieldUpdate runId field).1 (runId, field) := by
  rw [Settled]
  cases field with
  | none =>
      rw [applyRunFieldUpdate]
      cases found : state.nodes.get? runId with
      | none =>
          dsimp only
          rw [found]
          trivial
      | some node =>
          dsimp only
          split
          · next dead =>
              dsimp only
              rw [found]
              exact .inl dead
          · next shows =>
              have live : node.deleted = false := Bool.not_eq_true _ ▸ shows
              dsimp only [docReducer]
              rw [applyDeleteRange_whole found live]
              split
              · next empty =>
                  rw [found]
                  exact .inr empty
              · rcases get?_tombstoneRun_self (by rw [found]; rfl) with ⟨later, held, dead⟩
                rw [held]
                exact .inl dead
  | some incoming =>
      have named := own incoming rfl
      rw [applyRunFieldUpdate]
      cases found : state.nodes.get? runId with
      | none =>
          dsimp only [docReducer]
          rcases get?_withPlaceholder state incoming runId with same | ⟨_, placeholder, held, dead⟩
          · have fresh : (state.withPlaceholder incoming).nodes.get? incoming.id = none := by
              rw [named, same, found]
            rw [← named, get?_applyInsertRun_self fresh]
            exact .inr (.inl ⟨rfl, rfl, rfl⟩)
          · rw [applyInsertRun_of_stored (by rw [named, held]; rfl), held]
            exact .inl dead
      | some node =>
          dsimp only
          split
          · next dead =>
              dsimp only [docReducer]
              rw [applyInsertRun_of_stored (by rw [named, found]; rfl), found]
              exact .inl dead
          · next shows =>
              split
              · next same =>
                  dsimp only
                  rw [found]
                  exact .inr (.inl same)
              · split
                · next newer =>
                    dsimp only
                    rw [found]
                    refine .inr (.inr ?_)
                    rw [compareHlc] at newer
                    grind
                · dsimp only
                  rw [applySetRun, found]
                  dsimp only
                  rw [if_neg shows, OrderedMap.get?_set_self]
                  exact .inr (.inl ⟨rfl, rfl, rfl⟩)

theorem get?_fieldUpdate_of_ne (own : ∀ node, field = some node → node.id = runId)
    (apart : id ≠ runId) :
    (state.applyRunFieldUpdate runId field).1.nodes.get? id = state.nodes.get? id ∨
      state.nodes.get? id = none ∧ ∃ placeholder,
        (state.applyRunFieldUpdate runId field).1.nodes.get? id = some placeholder ∧
          placeholder.deleted = true := by
  cases field with
  | none =>
      refine .inl ?_
      rw [applyRunFieldUpdate]
      split
      · rfl
      · next node found =>
          split
          · rfl
          · next shows =>
              have live : node.deleted = false := Bool.not_eq_true _ ▸ shows
              dsimp only [docReducer]
              rw [applyDeleteRange_whole found live]
              split
              · rfl
              · exact get?_tombstoneRun_of_ne apart
  | some incoming =>
      have named := own incoming rfl
      have insertion : ∀ base : DocState,
          (base.applyInsertRun incoming).nodes.get? id = base.nodes.get? id := fun base =>
        get?_applyInsertRun_of_ne (named ▸ apart)
      rw [applyRunFieldUpdate]
      split
      · next node found =>
          refine .inl ?_
          split
          · exact insertion state
          · split
            · rfl
            · split
              · rfl
              · exact get?_applySetRun_of_ne apart incoming
      · dsimp only [docReducer]
        rw [insertion]
        exact get?_withPlaceholder state incoming id

theorem Settled.fieldUpdate {entry : String × Option RunNode} (settled : Settled state entry)
    (own : ∀ node, field = some node → node.id = runId) (apart : entry.1 ≠ runId) :
    Settled (state.applyRunFieldUpdate runId field).1 entry := by
  rw [Settled] at settled ⊢
  rcases get?_fieldUpdate_of_ne own apart with same | ⟨_, placeholder, held, dead⟩
  · rw [same]
    exact settled
  · rw [held]
    exact agrees_deleted entry.2 dead

theorem OwnIds.head {entry : String × Option RunNode} (own : OwnIds (entry :: rest))
    : ∀ node, entry.2 = some node → node.id = entry.1 :=
  fun node same => own entry.1 node (same ▸ List.mem_cons_self)

theorem OwnIds.tail {entry : String × Option RunNode} (own : OwnIds (entry :: rest)) : OwnIds rest :=
  fun runId node member => own runId node (List.mem_cons_of_mem _ member)

theorem Settled.fieldUpdates {entry : String × Option RunNode} (settled : Settled state entry)
    {runs : List (String × Option RunNode)} (own : OwnIds runs)
    (absent : entry.1 ∉ runs.map Prod.fst) :
    Settled (state.applyRunFieldUpdates runs).1 entry := by
  induction runs generalizing state with
  | nil => exact settled
  | cons head rest induction =>
      rw [List.map_cons, List.mem_cons, not_or] at absent
      rw [applyRunFieldUpdates_cons]
      exact induction (settled.fieldUpdate own.head absent.1) own.tail absent.2

theorem settled_fieldUpdates {runs : List (String × Option RunNode)} (plain : Plain runs) :
    ∀ entry ∈ runs, Settled (state.applyRunFieldUpdates runs).1 entry := by
  induction runs generalizing state with
  | nil => exact nofun
  | cons head rest induction =>
      have nodup := plain.nodup
      rw [List.map_cons, List.nodup_cons] at nodup
      have own := plain.ownIds
      rw [applyRunFieldUpdates_cons]
      intro entry member
      rcases List.mem_cons.mp member with rfl | inRest
      · exact (settled_fieldUpdate own.head).fieldUpdates own.tail nodup.1
      · exact induction ⟨nodup.2, own.tail⟩ entry inRest

theorem kept_by_fieldUpdates {runs : List (String × Option RunNode)} (own : OwnIds runs)
    (only : ∀ field, (id, field) ∈ runs → field = none)
    (held : ∃ node, state.nodes.get? id = some node ∧ (node.deleted = true ∨ node.text ≠ [])) :
    ∃ node, (state.applyRunFieldUpdates runs).1.nodes.get? id = some node ∧
      (node.deleted = true ∨ node.text ≠ []) := by
  induction runs generalizing state with
  | nil => exact held
  | cons head rest induction =>
      rw [applyRunFieldUpdates_cons]
      apply induction own.tail fun field member => only field (List.mem_cons_of_mem _ member)
      rcases held with ⟨node, found, shows⟩
      by_cases same : id = head.1
      · have none := only head.2 (same ▸ List.mem_cons_self)
        rw [none, ← same, applyRunFieldUpdate, found]
        dsimp only
        split
        · exact ⟨node, found, shows⟩
        · next live =>
            have live : node.deleted = false := Bool.not_eq_true _ ▸ live
            dsimp only [docReducer]
            rw [applyDeleteRange_whole found live]
            split
            · exact ⟨node, found, shows⟩
            · rcases get?_tombstoneRun_self (by rw [found]; rfl) with ⟨later, stored, dead⟩
              exact ⟨later, stored, .inl dead⟩
      · rcases get?_fieldUpdate_of_ne own.head same with kept | ⟨absent, _⟩
        · exact ⟨node, kept.trans found, shows⟩
        · rw [found] at absent
          cases absent

theorem deleted_fieldUpdates {runs : List (String × Option RunNode)}
    (held : ∃ node, state.nodes.get? id = some node ∧ node.deleted = true) :
    ∃ node, (state.applyRunFieldUpdates runs).1.nodes.get? id = some node ∧
      node.deleted = true := (kept_tombstone id).fieldUpdates held runs

end Updates

/-! ## Older content -/

/-- A run of an older content map that a newer one leaves nothing of: it is the same there, the
document has deleted it, the newer map has it at a later time, or the newer map's tombstone
finds it. -/
def Superseded (state : DocState) (runs : List (String × Option RunNode))
    (entry : String × Option RunNode) : Prop :=
  entry ∈ runs ∨ (∃ node, state.nodes.get? entry.1 = some node ∧ node.deleted = true) ∨
    ∃ incoming, entry.2 = some incoming ∧
      ((∃ later, (entry.1, some later) ∈ runs ∧ incoming.hlc < later.hlc) ∨
        (entry.1, none) ∈ runs ∧ ∃ node, state.nodes.get? entry.1 = some node ∧ node.text ≠ [])

section Older

variable {state : DocState} {runs : List (String × Option RunNode)}
    {entry : String × Option RunNode}

theorem settled_of_superseded {next : DocState} (superseded : Superseded state runs entry)
    (settled : ∀ entry ∈ runs, Settled next entry)
    (deleted : ∀ id, (∃ node, state.nodes.get? id = some node ∧ node.deleted = true) →
      ∃ node, next.nodes.get? id = some node ∧ node.deleted = true)
    (found : ∀ id, (id, none) ∈ runs →
      (∃ node, state.nodes.get? id = some node ∧ node.text ≠ []) →
        ∃ node, next.nodes.get? id = some node ∧ (node.deleted = true ∨ node.text ≠ [])) :
    Settled next entry := by
  rcases superseded with member | dead | ⟨incoming, same, ⟨later, member, newer⟩ | ⟨member, held⟩⟩
  · exact settled entry member
  · rcases deleted entry.1 dead with ⟨node, stored, gone⟩
    rw [Settled, stored]
    exact agrees_deleted entry.2 gone
  · have agrees := settled _ member
    rw [Settled] at agrees ⊢
    dsimp only at agrees
    rw [same]
    cases stored : next.nodes.get? entry.1 with
    | none =>
        rw [stored] at agrees
        exact agrees
    | some node =>
        rw [stored] at agrees
        rcases agrees with dead | ⟨_, level, _⟩ | older
        · exact .inl dead
        · exact .inr (.inr (level ▸ newer))
        · exact .inr (.inr (Nat.lt_trans newer older))
  · have agrees := settled _ member
    rcases found entry.1 member held with ⟨node, stored, shows⟩
    rw [Settled, stored] at agrees ⊢
    have dead : node.deleted = true := by
      rcases agrees with dead | empty
      · exact dead
      · exact shows.resolve_right fun some => some empty
    exact agrees_deleted entry.2 dead

end Older

/-! ## Local edits -/

/-- A split spares an entry of a content map: what is left of a live run is newer than the
entry's run, and the entry is no tombstone of the part that is split off. -/
def SplitSpares (state : DocState) (runId : String) (offset : Int)
    (entry : String × Option RunNode) : Prop :=
  Splits state runId offset → ∀ node, state.nodes.get? runId = some node → node.deleted = false →
    (entry.1 = runId → ∀ incoming, entry.2 = some incoming → incoming.hlc < node.hlc) ∧
      entry ≠ (makeSplitId runId offset, none)

/-- A deletion spares an entry. It leaves the front of the run under the run's own id, and splits
off the back where it ends inside. -/
def DeleteSpares (state : DocState) (runId : String) (node : RunNode) (offset count : Int)
    (entry : String × Option RunNode) : Prop :=
  if offset = 0 then
    Splits state runId count → entry ≠ (makeSplitId runId count, none)
  else
    let rightId := makeSplitId runId offset
    (state.nodes.get? rightId = none → entry.1 = runId →
      ∀ incoming, entry.2 = some incoming → incoming.hlc < node.hlc) ∧
    (offset + count < node.text.length → Splits (state.applySplit runId offset) rightId count →
      entry ≠ (makeSplitId rightId count, none))

section Sparing

variable {state : DocState} {runId : String} {offset : Int} {entry : String × Option RunNode}

theorem Settled.split_away (settled : Settled state entry) (apart : entry.1 ≠ runId)
    (other : entry.1 ≠ makeSplitId runId offset) :
    Settled (state.applySplit runId offset) entry := by
  by_cases splits : Splits state runId offset
  · rcases splits with ⟨node, found, positive, inside, fresh⟩
    rw [Settled] at settled ⊢
    rw [get?_applySplit_of_ne found positive inside fresh apart other]
    cases held : state.nodes.get? entry.1 with
    | none =>
        rw [held] at settled
        exact settled
    | some run =>
        rw [held] at settled
        rw [Option.map_some]
        split
        · exact (agrees_reparent _ _ _).mpr settled
        · exact settled
  · rw [applySplit_of_not splits]
    exact settled

theorem Settled.split_front (settled : Settled state entry) (same : entry.1 = runId)
    (newer : Splits state runId offset → ∀ node, state.nodes.get? runId = some node →
      node.deleted = false → ∀ incoming, entry.2 = some incoming → incoming.hlc < node.hlc) :
    Settled (state.applySplit runId offset) entry := by
  by_cases splits : Splits state runId offset
  · have newer := newer splits
    rcases splits with ⟨node, found, positive, inside, fresh⟩
    have written : ∃ parentId, (state.applySplit runId offset).nodes.get? runId =
        some { leftHalf node offset with parentId } := by
      rw [get?_applySplit found positive inside fresh,
        OrderedMap.get?_set_of_ne _ (Ne.symm (makeSplitId_ne_self runId offset)),
        OrderedMap.get?_set_self, Option.map_some]
      split
      · exact ⟨_, rfl⟩
      · exact ⟨_, rfl⟩
    rcases written with ⟨parentId, written⟩
    rw [Settled, same] at settled ⊢
    rw [found] at settled
    rw [written, agrees_reparent]
    cases field : entry.2 with
    | none =>
        rw [field] at settled
        rcases settled with dead | empty
        · exact .inl dead
        · rw [empty] at inside
          simp only [List.length_nil] at inside
          omega
    | some incoming =>
        cases dead : node.deleted with
        | true => exact .inl dead
        | false => exact .inr (.inr (newer node found dead incoming field))
  · rw [applySplit_of_not splits]
    exact settled

theorem Settled.split_back (settled : Settled state entry)
    (same : entry.1 = makeSplitId runId offset)
    (other : Splits state runId offset → ∀ node, state.nodes.get? runId = some node →
      node.deleted = false → entry ≠ (makeSplitId runId offset, none)) :
    Settled (state.applySplit runId offset) entry := by
  by_cases splits : Splits state runId offset
  · have other := other splits
    rcases splits with ⟨node, found, positive, inside, fresh⟩
    rw [Settled, same] at settled ⊢
    rw [fresh] at settled
    have none : entry.2 = none := by
      cases field : entry.2 with
      | none => rfl
      | some incoming =>
          rw [field] at settled
          exact settled.elim
    have dead : node.deleted = true := by
      by_contra live
      exact other node found (Bool.not_eq_true _ ▸ live) (Prod.ext same none)
    rw [get?_applySplit found positive inside fresh, OrderedMap.get?_set_self, Option.map_some]
    split
    · exact agrees_deleted _ dead
    · exact agrees_deleted _ dead
  · rw [applySplit_of_not splits]
    exact settled

theorem Settled.split (settled : Settled state entry)
    (spares : SplitSpares state runId offset entry) :
    Settled (state.applySplit runId offset) entry := by
  by_cases front : entry.1 = runId
  · exact settled.split_front front fun splits node found live =>
      (spares splits node found live).1 front
  · by_cases back : entry.1 = makeSplitId runId offset
    · exact settled.split_back back fun splits node found live =>
        (spares splits node found live).2
    · exact settled.split_away front back

theorem Settled.tombstone (settled : entry.1 ≠ runId → Settled state entry)
    (stored : (state.nodes.get? runId).isSome = true) :
    Settled (state.tombstoneRun runId) entry := by
  by_cases same : entry.1 = runId
  · rcases get?_tombstoneRun_self stored with ⟨later, found, dead⟩
    rw [Settled, same, found]
    exact agrees_deleted entry.2 dead
  · rw [Settled, get?_tombstoneRun_of_ne same]
    exact settled same

theorem stored_behind {node : RunNode} (found : state.nodes.get? runId = some node)
    (positive : 0 < offset) (inside : offset < node.text.length) :
    ((state.applySplit runId offset).nodes.get? (makeSplitId runId offset)).isSome = true := by
  cases fresh : state.nodes.get? (makeSplitId runId offset) with
  | none =>
      rw [get?_applySplit found positive inside fresh, OrderedMap.get?_set_self]
      rfl
  | some other => exact stored_applySplit (by rw [fresh]; rfl) runId offset

theorem Settled.deleteRange (settled : Settled state entry) {node : RunNode}
    (found : state.nodes.get? runId = some node) (live : node.deleted = false) {count : Int}
    (start : 0 ≤ offset) (positive : 0 < count) (within : offset + count ≤ node.text.length)
    (spares : DeleteSpares state runId node offset count entry) :
    Settled (state.applyDeleteRange runId offset count) entry := by
  rw [DeleteSpares] at spares
  rw [applyDeleteRange, found]
  dsimp only
  rw [if_neg (by rw [live]; exact Bool.false_ne_true), if_neg (by omega)]
  have here : (state.nodes.get? runId).isSome = true := by
    rw [found]
    rfl
  by_cases atStart : offset = 0
  · rw [if_pos atStart] at spares
    by_cases whole : offset = 0 ∧ count = node.text.length
    · rw [if_pos whole]
      exact Settled.tombstone (fun _ => settled) here
    · -- The front goes, the back is a run of its own.
      rw [if_neg whole, if_pos atStart]
      refine Settled.tombstone (fun apart => ?_) (stored_applySplit here runId count)
      by_cases back : entry.1 = makeSplitId runId count
      · exact settled.split_back back fun splits _ _ _ => spares splits
      · exact settled.split_away apart back
  · rw [if_neg atStart] at spares
    rw [if_neg (fun whole => atStart whole.1), if_neg atStart]
    have inside : offset < node.text.length := by omega
    have behind := stored_behind found (show 0 < offset by omega) inside
    have cut : entry.1 ≠ makeSplitId runId offset →
        Settled (state.applySplit runId offset) entry := by
      intro apart
      by_cases front : entry.1 = runId
      · apply settled.split_front front
        rintro ⟨_, _, _, _, fresh⟩ other held _
        rw [found] at held
        cases held
        exact spares.1 fresh front
      · exact settled.split_away front apart
    split
    · exact Settled.tombstone cut behind
    · next notEnd =>
        refine Settled.tombstone (fun apart => ?_) (stored_applySplit behind _ count)
        by_cases back : entry.1 = makeSplitId (makeSplitId runId offset) count
        · exact (cut apart).split_back back fun splits _ _ _ => spares.2 (by omega) splits
        · exact (cut apart).split_away apart back

end Sparing

end DocState

namespace TextDocument

/-- A local edit spares an entry of a content map. A new run is no tombstone's of the map, unless
it has no text, and an extended run gets a later time than the map's. An edit that is turned away
spares everything. -/
def Spares (doc : TextDocument) (now : Nat → Nat) (entry : String × Option RunNode) :
    LocalEdit → Prop
  | .insert text options =>
      let parentId := (options.afterRun.or doc.findLastVisibleRunId).getD rootId
      let runId := (doc.newRun now text parentId options.hlc).id
      ∀ next, doc.splitParent parentId options.splitParentAt = some next →
        (∀ splitParentAt, options.splitParentAt = some splitParentAt →
          doc.state.SplitSpares parentId splitParentAt entry) ∧
        (next.nodes.get? runId = none → text = [] ∨ entry ≠ (runId, none))
  | .delete runId offset count =>
      ∀ node, doc.state.nodes.get? runId = some node → node.deleted = false → 0 ≤ offset →
        0 < count → offset + count ≤ node.text.length →
          doc.state.DeleteSpares runId node offset count entry
  | .extend runId appendText hlc =>
      let finalHlc := hlc.getD (doc.advance now).localHlcState.packed
      ∀ node, appendText ≠ [] → doc.state.nodes.get? runId = some node → node.deleted = false →
        entry.1 = runId → ∃ incoming, entry.2 = some incoming ∧
          (incoming.hlc < finalHlc ∨ incoming.text = node.text ++ appendText ∧
            incoming.hlc = finalHlc ∧ incoming.actorId = node.actorId)

section Performing

variable {doc : TextDocument} {now : Nat → Nat} {entry : String × Option RunNode}

section

variable (settled : doc.state.Settled entry)
include settled

theorem settled_insert {text : List UInt16} {options : LocalInsertOptions}
    (spares : doc.Spares now entry (.insert text options)) :
    (doc.localInsert now text options).1.state.Settled entry := by
  rw [Spares] at spares
  rw [localInsert]
  dsimp only at spares ⊢
  generalize (options.afterRun.or doc.findLastVisibleRunId).getD rootId = parentId at spares ⊢
  cases splits : doc.splitParent parentId options.splitParentAt with
  | none => exact settled
  | some next =>
      rcases spares next splits with ⟨halves, fresh⟩
      have settledNext : next.Settled entry := by
        cases at_ : options.splitParentAt with
        | none =>
            rw [at_, splitParent] at splits
            cases splits
            exact settled
        | some splitParentAt =>
            rw [at_, splitParent] at splits
            split at splits
            · cases splits
            · split at splits
              · cases splits
                exact settled.split (halves splitParentAt at_)
              · cases splits
      change (next.applyInsertRun _).Settled entry
      rw [DocState.Settled]
      by_cases same : entry.1 = (doc.newRun now text parentId options.hlc).id
      · cases absent : next.nodes.get? (doc.newRun now text parentId options.hlc).id with
        | none =>
            rw [DocState.Settled, same, absent] at settledNext
            rw [same, DocState.get?_applyInsertRun_self absent]
            cases field : entry.2 with
            | none =>
                rcases fresh absent with empty | other
                · exact .inr empty
                · exact absurd (Prod.ext same field) other
            | some incoming =>
                rw [field] at settledNext
                exact settledNext.elim
        | some stored =>
            rw [DocState.applyInsertRun_of_stored (by rw [absent]; rfl)]
            exact settledNext
      · rw [DocState.get?_applyInsertRun_of_ne same]
        exact settledNext

theorem settled_delete {runId : String} {offset count : Int}
    (spares : doc.Spares now entry (.delete runId offset count)) :
    (doc.localDelete now runId offset count).1.state.Settled entry := by
  rw [localDelete]
  split
  · exact settled
  · next node found =>
      split
      · exact settled
      · next shows =>
          split
          · exact settled
          · next valid =>
              rw [not_or, not_or] at valid
              have live : node.deleted = false := Bool.not_eq_true _ ▸ shows
              exact settled.deleteRange found live (by omega) (by omega) (by omega)
                (spares node found live (by omega) (by omega) (by omega))

theorem settled_extend {runId : String} {appendText : List UInt16} {hlc : Option HLCTimestamp}
    (spares : doc.Spares now entry (.extend runId appendText hlc)) :
    (doc.localExtend now runId appendText hlc).1.state.Settled entry := by
  rw [localExtend]
  split
  · exact settled
  · next some =>
      split
      · exact settled
      · next node found =>
          split
          · exact settled
          · next shows =>
              have live : node.deleted = false := Bool.not_eq_true _ ▸ shows
              have spared := spares node (fun empty => some (by rw [empty]; rfl)) found live
              dsimp only [DocState.docReducer]
              rw [DocState.Settled, DocState.applyExtendRun, found]
              dsimp only
              rw [if_neg shows, OrderedMap.get?_set]
              split
              · next same =>
                  rcases spared same with ⟨incoming, field, newer | equal⟩
                  · rw [field]
                    exact .inr (.inr newer)
                  · rw [field]
                    exact .inr (.inl equal)
              · exact settled

theorem settled_perform {edit : LocalEdit} (spares : doc.Spares now entry edit)
    : (doc.perform now edit).1.state.Settled entry := by
  cases edit with
  | insert text options => exact settled_insert settled spares
  | delete runId offset count => exact settled_delete settled spares
  | extend runId appendText hlc => exact settled_extend settled spares

end

end Performing

end TextDocument

/-! ## Hydrating -/

/-- A document with the runs of the content it was last hydrated from, and the state that was
produced. -/
structure HydratedDocument where
  doc : TextDocument
  hydrated : Option (List (String × Option RunNode) × DocState)

deriving instance DecidableEq for PositionIndex

deriving instance DecidableEq for DocState

inductive DocumentUse where
  | hydrate (sameReferences : Bool) (content : Option (FieldValue RunValue))
  | edit (edit : LocalEdit)
  | applyActions (actions : List (Action RunValue))

namespace HydratedDocument

def create (actorId docType : String) : HydratedDocument where
  doc := {
    actorId
    docType
    state := createDocState
    localHlcState := { l := 0, c := 0 }
    readings := 0 }
  hydrated := none

def text (document : HydratedDocument) : List UInt16 := document.doc.state.reconstruct

/-- The source compares references to the content and the state. Equal references are to equal
values; whether equal values are the same object is left to the caller. -/
def hydrate (document : HydratedDocument) (sameReferences : Bool)
    (content : Option (FieldValue RunValue)) : HydratedDocument :=
  let runs := parseContentField content
  if sameReferences ∧ document.hydrated = some (runs, document.doc.state) then document
  else
    let state :=
      if 0 < runs.length then (document.doc.state.applyRunFieldUpdates runs).1
      else document.doc.state
    { doc := { document.doc with state }, hydrated := some (runs, state) }

def edit (document : HydratedDocument) (now : Nat → Nat) (edit : LocalEdit) : HydratedDocument :=
  { document with doc := (document.doc.perform now edit).1 }

def applyActions (document : HydratedDocument) (actions : List (Action RunValue)) :
    HydratedDocument :=
  { document with doc := { document.doc with
    state := (applyWireActions document.doc.state actions document.doc.docType).1 } }

def use (now : Nat → Nat) (document : HydratedDocument) : DocumentUse → HydratedDocument
  | .hydrate sameReferences content => document.hydrate sameReferences content
  | .edit edit => document.edit now edit
  | .applyActions actions => document.applyActions actions

def editing (now : Nat → Nat) (document : HydratedDocument) :
    Machine HydratedDocument LocalEdit where
  initial := document
  step := fun document edit => some (document.edit now edit)

def life (now : Nat → Nat) (actorId docType : String) : Machine HydratedDocument DocumentUse where
  initial := create actorId docType
  step := fun document event => some (document.use now event)

/-- The state a document keeps of its last hydration has settled the runs of the content. -/
def Cached (document : HydratedDocument) : Prop :=
  ∀ runs state, document.hydrated = some (runs, state) → DocState.Plain runs →
    ∀ entry ∈ runs, state.Settled entry

section Hydrating

variable {document : HydratedDocument} {now : Nat → Nat}

theorem hydrate_cases (document : HydratedDocument) (sameReferences : Bool)
    (content : Option (FieldValue RunValue)) :
    (document.hydrate sameReferences content = document ∧
      document.hydrated = some (parseContentField content, document.doc.state)) ∨
    document.hydrate sameReferences content = {
      doc := { document.doc with
        state := (document.doc.state.applyRunFieldUpdates (parseContentField content)).1 }
      hydrated := some (parseContentField content,
        (document.doc.state.applyRunFieldUpdates (parseContentField content)).1) } := by
  rw [hydrate]
  dsimp only
  split
  · next cached => exact .inl ⟨rfl, cached.2⟩
  · refine .inr ?_
    split
    · rfl
    · next empty =>
        have none : parseContentField content = [] := by
          rw [← List.length_eq_zero_iff]
          omega
        rw [none]
        rfl

theorem Cached.use (cached : Cached document) (event : DocumentUse) :
    Cached (document.use now event) := by
  cases event with
  | hydrate sameReferences content =>
      rw [HydratedDocument.use]
      rcases hydrate_cases document sameReferences content with ⟨same, _⟩ | applied
      · rw [same]
        exact cached
      · rw [applied]
        intro runs state held plain
        cases held
        exact DocState.settled_fieldUpdates plain
  | edit edit => exact cached
  | applyActions actions => exact cached

theorem cached_of_life {actorId docType : String} {uses : List DocumentUse}
    (reached : (life now actorId docType).run (create actorId docType) uses = some document) :
    Cached document := by
  apply @Machine.run_preserves _ _ _ Cached (fun _ _ => True) ?_ _ _ uses ?_ ?_ reached
  · intro before event after cached _ stepped
    cases stepped
    exact cached.use event
  · exact nofun
  · clear reached
    generalize create actorId docType = start
    induction uses generalizing start with
    | nil => trivial
    | cons event rest induction => exact ⟨trivial, fun next _ => induction next⟩

theorem only_tombstone {runs : List (String × Option RunNode)} (plain : DocState.Plain runs)
    {id : String} (member : (id, none) ∈ runs) : ∀ field, (id, field) ∈ runs → field = none := by
  intro field other
  have same := List.inj_on_of_nodup_map plain.nodup other member rfl
  exact congrArg Prod.snd same

theorem settled_hydrate (cached : Cached document) (sameReferences : Bool)
    {content : Option (FieldValue RunValue)} (plain : DocState.Plain (parseContentField content))
    {entry : String × Option RunNode}
    (superseded : document.doc.state.Superseded (parseContentField content) entry) :
    (document.hydrate sameReferences content).doc.state.Settled entry := by
  rcases hydrate_cases document sameReferences content with ⟨same, held⟩ | applied
  · rw [same]
    apply DocState.settled_of_superseded superseded (cached _ _ held plain)
    · exact fun _ deleted => deleted
    · rintro id _ ⟨node, found, some⟩
      exact ⟨node, found, .inr some⟩
  · rw [applied]
    apply DocState.settled_of_superseded superseded (DocState.settled_fieldUpdates plain)
    · exact fun _ deleted => DocState.deleted_fieldUpdates deleted
    · rintro id member ⟨node, found, some⟩
      exact DocState.kept_by_fieldUpdates plain.ownIds (only_tombstone plain member)
        ⟨node, found, .inr some⟩

theorem settled_edits {edits : List LocalEdit} {final : HydratedDocument}
    {entry : String × Option RunNode} (settled : document.doc.state.Settled entry)
    (spares : (editing now document).Meets (fun document edit => document.doc.Spares now entry edit)
      document edits)
    (edited : (editing now document).run document edits = some final) :
    final.doc.state.Settled entry := by
  apply @Machine.run_preserves _ _ _ (fun document : HydratedDocument =>
    document.doc.state.Settled entry) _ ?_ _ _ _ settled spares edited
  intro before edit after settled spares stepped
  cases stepped
  exact TextDocument.settled_perform settled spares

/-- Hydrating again from the content, or from an older one that it supersedes, leaves the text
of a document whose local edits spare the runs of that content. -/
theorem rehydrate_keeps_text {actorId docType : String} {uses : List DocumentUse}
    (reached : (life now actorId docType).run (create actorId docType) uses = some document)
    {content older : Option (FieldValue RunValue)}
    (plain : DocState.Plain (parseContentField content))
    (ownIds : DocState.OwnIds (parseContentField older))
    (superseded : ∀ entry ∈ parseContentField older,
      document.doc.state.Superseded (parseContentField content) entry)
    (first again : Bool) {edits : List LocalEdit} {final : HydratedDocument}
    (spares : ∀ entry ∈ parseContentField older,
      (editing now (document.hydrate first content)).Meets
        (fun document edit => document.doc.Spares now entry edit)
        (document.hydrate first content) edits)
    (edited : (editing now (document.hydrate first content)).run (document.hydrate first content)
      edits = some final) : (final.hydrate again older).text = final.text := by
  have settled : ∀ entry ∈ parseContentField older, final.doc.state.Settled entry :=
    fun entry member => settled_edits (settled_hydrate (cached_of_life reached) first plain
      (superseded entry member)) (spares entry member) edited
  rw [text, text]
  rcases hydrate_cases final again older with ⟨same, _⟩ | applied
  · rw [same]
  · rw [applied]
    dsimp only
    rw [DocState.fieldUpdates_of_settled ownIds settled]

def oneRunContent : Option (FieldValue RunValue) :=
  some (.map [("1:usr_1", .leaf {
    value := .run (DocState.run "1:usr_1" 1 [97, 98, 99] rootId)
    updateId := "upd_1"
    hlc := some 1 })])

/-- The run is extended at a later time and loses its first code unit. -/
theorem rehydrate_keeps_text_extended :
    (((((create "usr_1" "doc").hydrate false oneRunContent).edit (fun _ => 5)
      (.extend "1:usr_1" [100] none)).edit (fun _ => 5) (.delete "1:usr_1" 0 1)).hydrate false
        oneRunContent).text =
    ((((create "usr_1" "doc").hydrate false oneRunContent).edit (fun _ => 5)
      (.extend "1:usr_1" [100] none)).edit (fun _ => 5) (.delete "1:usr_1" 0 1)).text := by
  have runs : parseContentField oneRunContent =
      [("1:usr_1", some (DocState.run "1:usr_1" 1 [97, 98, 99] rootId))] := rfl
  apply @rehydrate_keeps_text (create "usr_1" "doc") (fun _ => 5) "usr_1" "doc" [] rfl oneRunContent
    oneRunContent ?_ ?_ (fun entry member => .inl member) false false
    [.extend "1:usr_1" [100] none, .delete "1:usr_1" 0 1] _ ?_ rfl
  · rw [runs]
    refine ⟨List.nodup_singleton _, fun runId node member => ?_⟩
    cases List.mem_singleton.mp member
    rfl
  · rw [runs]
    intro runId node member
    cases List.mem_singleton.mp member
    rfl
  · rw [runs]
    intro entry member
    cases List.mem_singleton.mp member
    refine ⟨fun node _ _ _ _ => ⟨_, rfl, .inl (by decide)⟩, fun next stepped => ?_⟩
    cases stepped
    refine ⟨fun node _ _ _ _ _ => ?_, fun _ _ => trivial⟩
    rw [DocState.DeleteSpares, if_pos rfl]
    exact fun _ same => nomatch congrArg Prod.snd same

/-- The end of the run is deleted, and hydrating again brings it back. -/
theorem deletedEnd_restored :
    (((create "usr_1" "doc").hydrate false oneRunContent).edit (fun _ => 5)
      (.delete "1:usr_1" 1 2)).text = [97] ∧
    ((((create "usr_1" "doc").hydrate false oneRunContent).edit (fun _ => 5)
      (.delete "1:usr_1" 1 2)).hydrate false oneRunContent).text = [97, 98, 99] ∧
    ((((create "usr_1" "doc").hydrate false oneRunContent).edit (fun _ => 5)
      (.delete "1:usr_1" 1 2)).hydrate true oneRunContent).text = [97, 98, 99] := by
  refine ⟨?_, ?_, ?_⟩
  · decide
  · decide
  · decide

end Hydrating

end HydratedDocument

end Ebb.Text
