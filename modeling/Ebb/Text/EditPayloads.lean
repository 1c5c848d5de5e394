import Ebb.Text.EditorBridge
import Ebb.Text.ReachableStates

namespace Ebb.Text

/-! The run map of the Action a local edit queues, and when it names exactly the runs the edit
changed. The diff names every tombstone of the state, and it passes over a run that only got
another parent and over one that came and went in the same edit. -/

inductive LocalEdit where
  | insert (text : List UInt16) (options : LocalInsertOptions)
  | delete (runId : String) (offset count : Int)
  | extend (runId : String) (appendText : List UInt16) (hlc : Option HLCTimestamp)

namespace TextDocument

def perform (doc : TextDocument) (now : Nat → Nat) : LocalEdit →
    TextDocument × Option AppliedUpdate
  | .insert text options => doc.localInsert now text options
  | .delete runId offset count => doc.localDelete now runId offset count
  | .extend runId appendText hlc => doc.localExtend now runId appendText hlc

/-- The run map of the Action an edit queues. An edit that is turned away, or changes no run,
queues none. -/
def emitted (doc : TextDocument) (now : Nat → Nat) (edit : LocalEdit) :
    List (String × Option RunNode) :=
  match (doc.perform now edit).2 with
  | none => []
  | some _ => diffRunMap doc.state (doc.perform now edit).1.state

end TextDocument

/-- A run map names exactly the runs that changed, and its tombstones are runs that were
deleted between the states. -/
structure Exact (pre post : DocState) (runs : List (String × Option RunNode)) : Prop where
  changed : ∀ runId, runId ∈ runs.map Prod.fst ↔ pre.nodes.get? runId ≠ post.nodes.get? runId
  tombstones : ∀ runId, (runId, none) ∈ runs →
    (∃ node, pre.nodes.get? runId = some node ∧ node.deleted = false) ∧
      ∃ node, post.nodes.get? runId = some node ∧ node.deleted = true

/-! ## Differences -/

def diffEntry : Option RunNode → Option RunNode → Option (Option RunNode)
  | some _, none => some none
  | some pre, some post =>
      if post.deleted then some none
      else if post.text ≠ pre.text ∨ post.hlc ≠ pre.hlc ∨ post.actorId ≠ pre.actorId then
        some (some post)
      else none
  | none, some post => if post.deleted then none else some (some post)
  | none, none => none

theorem mem_diffRunMap {pre post : DocState} {runId : String} {field : Option RunNode} :
    (runId, field) ∈ diffRunMap pre post ↔ runId ≠ rootId ∧
      diffEntry (pre.nodes.get? runId) (post.nodes.get? runId) = some field := by
  have entries : ∀ (nodes : OrderedMap String RunNode)
      (write : String × RunNode → Option (String × Option RunNode)),
      (∀ entry written, write entry = some written → written.1 = entry.1) →
        ((runId, field) ∈ nodes.entries.filterMap write ↔
          ∃ node, nodes.get? runId = some node ∧ write (runId, node) = some (runId, field)) := by
    intro nodes write named
    rw [List.mem_filterMap]
    constructor
    · rintro ⟨⟨id, node⟩, member, written⟩
      cases named _ _ written
      exact ⟨node, (OrderedMap.get?_eq_some_iff nodes runId node).mpr member, written⟩
    · rintro ⟨node, found, written⟩
      exact ⟨(runId, node), (OrderedMap.get?_eq_some_iff nodes runId node).mp found, written⟩
  rw [diffRunMap, List.mem_append, entries, entries]
  · cases before : pre.nodes.get? runId with
    | none =>
        cases after : post.nodes.get? runId with
        | none => simp [diffEntry]
        | some later =>
            simp [diffEntry]
            grind
    | some earlier =>
        cases after : post.nodes.get? runId with
        | none => simp [diffEntry, after]
        | some later =>
            simp [diffEntry, after]
            grind
  · rintro ⟨id, node⟩ written
    dsimp only
    split
    · intro none
      cases none
    · split
      · intro none
        cases none
      · intro same
        cases same
        rfl
  · rintro ⟨id, node⟩ written
    dsimp only
    split
    · intro none
      cases none
    · split
      · intro same
        cases same
        rfl
      · split
        · intro same
          cases same
          rfl
        · split
          · intro same
            cases same
            rfl
          · intro none
            cases none

/-- What two states have under the id of a run differs only where the diff shows it. -/
def Told : Option RunNode → Option RunNode → Prop
  | none, none => True
  | none, some post => post.deleted = false
  | some pre, some post => post.deleted = true ∨ pre = post ∨
      post.text ≠ pre.text ∨ post.hlc ≠ pre.hlc ∨ post.actorId ≠ pre.actorId
  | some _, none => False

theorem told_self (node : Option RunNode) : Told node node := by
  cases node with
  | none => trivial
  | some node => exact .inr (.inl rfl)

theorem told_iff {pre post : Option RunNode} (alive : ∀ node, pre = some node →
    node.deleted = false) :
    Told pre post ↔ ((diffEntry pre post).isSome = true ↔ pre ≠ post) ∧
      (diffEntry pre post = some none → ∃ node, post = some node ∧ node.deleted = true) := by
  cases pre with
  | none =>
      cases post with
      | none => simp [Told, diffEntry]
      | some later =>
          cases gone : later.deleted with
          | false => simp [Told, diffEntry, gone]
          | true => simp [Told, diffEntry, gone]
  | some earlier =>
      have live := alive earlier rfl
      cases post with
      | none => simp [Told, diffEntry]
      | some later =>
          cases gone : later.deleted with
          | true =>
              have apart : earlier ≠ later := by
                rintro rfl
                rw [live] at gone
                cases gone
              simp [Told, diffEntry, gone, apart]
          | false =>
              by_cases differs : later.text ≠ earlier.text ∨ later.hlc ≠ earlier.hlc ∨
                  later.actorId ≠ earlier.actorId
              · have apart : earlier ≠ later := by
                  rintro rfl
                  simp at differs
                simp [Told, diffEntry, gone, differs, apart]
              · simp [Told, diffEntry, gone, differs]

namespace DocState

def NoTombstones (state : DocState) : Prop :=
  ∀ runId node, state.nodes.get? runId = some node → node.deleted = true → runId = rootId

def AllTold (pre post : DocState) : Prop :=
  post.nodes.get? rootId = pre.nodes.get? rootId ∧
    ∀ runId, runId ≠ rootId → Told (pre.nodes.get? runId) (post.nodes.get? runId)

theorem NoTombstones.live {state : DocState} (alive : state.NoTombstones) {runId : String}
    {node : RunNode} (found : state.nodes.get? runId = some node) (notRoot : runId ≠ rootId) :
    node.deleted = false := by
  cases gone : node.deleted with
  | false => rfl
  | true => exact absurd (alive runId node found gone) notRoot

end DocState

theorem exact_diffRunMap {pre post : DocState}
    (dead : ∀ runId node, pre.nodes.get? runId = some node → node.deleted = true →
      ∃ later, post.nodes.get? runId = some later ∧ later.deleted = true) :
    Exact pre post (diffRunMap pre post) ↔ pre.NoTombstones ∧ pre.AllTold post := by
  have listed : ∀ runId, runId ∈ (diffRunMap pre post).map Prod.fst ↔ runId ≠ rootId ∧
      (diffEntry (pre.nodes.get? runId) (post.nodes.get? runId)).isSome = true := by
    intro runId
    rw [List.mem_map, Option.isSome_iff_exists]
    constructor
    · rintro ⟨⟨id, field⟩, member, rfl⟩
      rcases mem_diffRunMap.mp member with ⟨notRoot, written⟩
      exact ⟨notRoot, field, written⟩
    · rintro ⟨notRoot, field, written⟩
      exact ⟨(runId, field), mem_diffRunMap.mpr ⟨notRoot, written⟩, rfl⟩
  constructor
  · intro exact'
    have alive : pre.NoTombstones := by
      intro runId node found deleted
      by_contra notRoot
      rcases dead runId node found deleted with ⟨later, held, gone⟩
      have written : diffEntry (pre.nodes.get? runId) (post.nodes.get? runId) = some none := by
        rw [found, held, diffEntry, if_pos gone]
      rcases (exact'.tombstones runId (mem_diffRunMap.mpr ⟨notRoot, written⟩)).1 with
        ⟨other, here, live⟩
      rw [found] at here
      cases here
      rw [deleted] at live
      cases live
    refine ⟨alive, ?_, fun runId notRoot => ?_⟩
    · by_contra different
      exact ((listed rootId).mp ((exact'.changed rootId).mpr (Ne.symm different))).1 rfl
    · rw [told_iff fun node found => alive.live found notRoot]
      constructor
      · have changed := (listed runId).symm.trans (exact'.changed runId)
        rwa [and_iff_right notRoot] at changed
      · intro written
        exact (exact'.tombstones runId (mem_diffRunMap.mpr ⟨notRoot, written⟩)).2
  · rintro ⟨alive, root, told⟩
    constructor
    case changed =>
      intro runId
      rw [listed]
      by_cases isRoot : runId = rootId
      · rw [isRoot]
        exact iff_of_false (fun shows => shows.1 rfl) fun differs => differs root.symm
      · have shows := (told_iff fun node found => alive.live found isRoot).mp (told runId isRoot)
        rw [and_iff_right isRoot]
        exact shows.1
    case tombstones =>
      intro runId member
      rcases mem_diffRunMap.mp member with ⟨notRoot, written⟩
      have shows := (told_iff fun node found => alive.live found notRoot).mp (told runId notRoot)
      refine ⟨?_, shows.2 written⟩
      cases before : pre.nodes.get? runId with
      | some earlier => exact ⟨earlier, rfl, alive.live before notRoot⟩
      | none =>
          rw [before] at written
          cases after : post.nodes.get? runId with
          | none =>
              rw [after] at written
              cases written
          | some later =>
              rw [after, diffEntry] at written
              split at written
              · cases written
              · cases written

/-! ## Splits -/

namespace DocState

def Splits (state : DocState) (runId : String) (offset : Int) : Prop :=
  ∃ node, state.nodes.get? runId = some node ∧ 0 < offset ∧ offset < node.text.length ∧
    state.nodes.get? (makeSplitId runId offset) = none

/-- If a split takes place, it gives no other run a new parent. -/
def SplitsAlone (state : DocState) (runId : String) (offset : Int) : Prop :=
  Splits state runId offset → runId ≠ rootId ∧ ∀ child ∈ state.childIds runId, child = runId

section Splitting

variable {state : DocState} {runId : String} {node : RunNode} {offset : Int}

theorem applySplit_of_not (idle : ¬ Splits state runId offset) :
    state.applySplit runId offset = state := by
  rcases applySplit_cases state runId offset with same | splits
  · exact same
  · exact absurd splits idle

theorem splitsAlone_of_not (idle : ¬ Splits state runId offset) :
    SplitsAlone state runId offset := fun splits => absurd splits idle

theorem get?_applySplit_of_ne (found : state.nodes.get? runId = some node) (positive : 0 < offset)
    (inside : offset < node.text.length)
    (fresh : state.nodes.get? (makeSplitId runId offset) = none) {id : String} (apart : id ≠ runId)
    (other : id ≠ makeSplitId runId offset) :
    (state.applySplit runId offset).nodes.get? id = (state.nodes.get? id).map fun node =>
      if id ∈ state.childIds runId then { node with parentId := makeSplitId runId offset }
      else node := by
  rw [get?_applySplit found positive inside fresh, OrderedMap.get?_set_of_ne _ other,
    OrderedMap.get?_set_of_ne _ apart]

theorem get?_applySplit_self (found : state.nodes.get? runId = some node) (positive : 0 < offset)
    (inside : offset < node.text.length)
    (fresh : state.nodes.get? (makeSplitId runId offset) = none) :
    ∃ left, (state.applySplit runId offset).nodes.get? runId = some left ∧
      left.deleted = node.deleted ∧ left.text = node.text.take offset.toNat := by
  rw [get?_applySplit found positive inside fresh,
    OrderedMap.get?_set_of_ne _ (Ne.symm (makeSplitId_ne_self runId offset)),
    OrderedMap.get?_set_self, Option.map_some]
  split
  · exact ⟨_, rfl, rfl, rfl⟩
  · exact ⟨_, rfl, rfl, rfl⟩

theorem get?_applySplit_right (listed : Listed state) (found : state.nodes.get? runId = some node)
    (positive : 0 < offset) (inside : offset < node.text.length)
    (fresh : state.nodes.get? (makeSplitId runId offset) = none) :
    (state.applySplit runId offset).nodes.get? (makeSplitId runId offset) =
      some (rightHalf node runId offset) := by
  have new : makeSplitId runId offset ∉ state.childIds runId := by
    intro member
    have stored := listed.stored _ _ member
    rw [fresh] at stored
    cases stored
  rw [get?_applySplit found positive inside fresh, OrderedMap.get?_set_self, Option.map_some,
    if_neg new]

theorem get?_root_applySplit (listed : Listed state) (runId : String) (offset : Int) :
    (state.applySplit runId offset).nodes.get? rootId = state.nodes.get? rootId ↔
      (Splits state runId offset → runId ≠ rootId) := by
  by_cases splits : Splits state runId offset
  · have happens := splits
    rcases splits with ⟨node, found, positive, inside, fresh⟩
    constructor
    · rintro same _ rfl
      rcases get?_applySplit_self found positive inside fresh with ⟨left, held, _, text⟩
      rw [same, found] at held
      cases held
      have size := congrArg List.length text
      rw [List.length_take] at size
      omega
    · intro apart
      rw [get?_applySplit_of_ne found positive inside fresh (Ne.symm (apart happens))
        (Ne.symm (makeSplitId_ne_root runId offset))]
      simp [listed.top runId]
  · rw [applySplit_of_not splits]
    exact iff_of_true rfl fun happens => absurd happens splits

theorem told_applySplit (listed : Listed state) (parented : Parented state)
    (alive : state.NoTombstones) (found : state.nodes.get? runId = some node)
    (positive : 0 < offset) (inside : offset < node.text.length)
    (fresh : state.nodes.get? (makeSplitId runId offset) = none) (notRoot : runId ≠ rootId)
    {id : String} (idNotRoot : id ≠ rootId) :
    Told (state.nodes.get? id) ((state.applySplit runId offset).nodes.get? id) ↔
      (id ∈ state.childIds runId → id = runId) := by
  by_cases atRun : id = runId
  · subst atRun
    rcases get?_applySplit_self found positive inside fresh with ⟨left, held, _, text⟩
    rw [found, held]
    have shorter : left.text ≠ node.text := by
      intro same
      have size := congrArg List.length (same.symm.trans text)
      rw [List.length_take] at size
      omega
    exact iff_of_true (.inr (.inr (.inl shorter))) fun _ => rfl
  · by_cases atSplit : id = makeSplitId runId offset
    · subst atSplit
      have new : makeSplitId runId offset ∉ state.childIds runId := by
        intro member
        have stored := listed.stored _ _ member
        rw [fresh] at stored
        cases stored
      have live := alive.live found notRoot
      rw [get?_applySplit_right listed found positive inside fresh, fresh]
      exact iff_of_true live fun member => absurd member new
    · rw [get?_applySplit_of_ne found positive inside fresh atRun atSplit]
      by_cases member : id ∈ state.childIds runId
      · rcases Option.isSome_iff_exists.mp (listed.stored _ _ member) with ⟨child, held⟩
        have live := alive.live held idNotRoot
        have parent := parented _ _ _ member held
        rw [held, Option.map_some, if_pos member]
        refine iff_of_false ?_ fun moved => atRun (moved member)
        rintro (gone | same | text | hlc | actor)
        · exact absurd gone (by dsimp only; rw [live]; exact Bool.false_ne_true)
        · have moved := congrArg RunNode.parentId same
          rw [parent] at moved
          exact makeSplitId_ne_self runId offset moved.symm
        · exact text rfl
        · exact hlc rfl
        · exact actor rfl
      · simp only [if_neg member, Option.map_id']
        exact iff_of_true (told_self _) fun moved => absurd moved member

end Splitting

/-! ## Edits -/

section Edits

variable {state : DocState} {runId : String} {node : RunNode} {offset : Int}

theorem get?_tombstoneRun_of_ne {id : String} (apart : id ≠ runId) :
    (state.tombstoneRun runId).nodes.get? id = state.nodes.get? id := by
  rw [tombstoneRun]
  split
  · rfl
  · split
    · rfl
    · exact OrderedMap.get?_set_of_ne _ apart _

theorem get?_tombstoneRun_self (stored : (state.nodes.get? runId).isSome = true) :
    ∃ later, (state.tombstoneRun runId).nodes.get? runId = some later ∧ later.deleted = true := by
  rcases Option.isSome_iff_exists.mp stored with ⟨node, found⟩
  rw [tombstoneRun, found]
  dsimp only
  split
  · next gone => exact ⟨node, found, gone⟩
  · exact ⟨_, OrderedMap.get?_set_self _ _ _, rfl⟩

theorem allTold_cut (listed : Listed state) (parented : Parented state)
    (alive : state.NoTombstones) (found : state.nodes.get? runId = some node)
    (live : node.deleted = false) (offset : Int) :
    state.AllTold ((state.applySplit runId offset).tombstoneRun runId) ↔
      runId ≠ rootId ∧ SplitsAlone state runId offset := by
  have stored : ((state.applySplit runId offset).nodes.get? runId).isSome = true :=
    stored_applySplit (by rw [found]; rfl) runId offset
  rcases get?_tombstoneRun_self stored with ⟨later, held, gone⟩
  constructor
  · rintro ⟨root, told⟩
    have notRoot : runId ≠ rootId := by
      rintro rfl
      rw [held, found] at root
      cases root
      rw [live] at gone
      cases gone
    refine ⟨notRoot, fun splits => ⟨notRoot, fun child member => ?_⟩⟩
    rcases splits with ⟨_, here, positive, inside, fresh⟩
    by_contra apart
    have childNotRoot : child ≠ rootId := by
      rintro rfl
      exact listed.top runId member
    have toldChild := told child childNotRoot
    rw [get?_tombstoneRun_of_ne apart,
      told_applySplit listed parented alive here positive inside fresh notRoot childNotRoot]
      at toldChild
    exact apart (toldChild member)
  · rintro ⟨notRoot, alone⟩
    constructor
    · rw [get?_tombstoneRun_of_ne (Ne.symm notRoot), get?_root_applySplit listed]
      exact fun _ => notRoot
    · intro id idNotRoot
      by_cases atRun : id = runId
      · subst atRun
        rw [found, held]
        exact .inl gone
      · rw [get?_tombstoneRun_of_ne atRun]
        by_cases splits : Splits state runId offset
        · have quiet := (alone splits).2 id
          rcases splits with ⟨_, here, positive, inside, fresh⟩
          exact (told_applySplit listed parented alive here positive inside fresh notRoot
            idNotRoot).mpr quiet
        · rw [applySplit_of_not splits]
          exact told_self _

theorem allTold_insert (listed : Listed state) (parented : Parented state)
    (alive : state.NoTombstones) (runId : String) (offset : Int) {inserted : RunNode}
    (live : inserted.deleted = false) :
    state.AllTold ((state.applySplit runId offset).applyInsertRun inserted) ↔
      SplitsAlone state runId offset := by
  have others : ∀ id, (state.nodes.get? id).isSome = true ∨ id ≠ inserted.id →
      ((state.applySplit runId offset).applyInsertRun inserted).nodes.get? id =
        (state.applySplit runId offset).nodes.get? id := by
    intro id known
    rw [applyInsertRun]
    split
    · rfl
    · next absent =>
        apply OrderedMap.get?_set_of_ne
        rcases known with stored | apart
        · rintro rfl
          exact absent (stored_applySplit stored runId offset)
        · exact apart
  constructor
  · rintro ⟨root, told⟩ splits
    rw [others rootId (.inl listed.root), get?_root_applySplit listed] at root
    refine ⟨root splits, fun child member => ?_⟩
    have childNotRoot : child ≠ rootId := by
      rintro rfl
      exact listed.top runId member
    have toldChild := told child childNotRoot
    rcases splits with ⟨_, here, positive, inside, fresh⟩
    rw [others child (.inl (listed.stored _ _ member)), told_applySplit listed parented alive here
      positive inside fresh (root ⟨_, here, positive, inside, fresh⟩) childNotRoot] at toldChild
    exact toldChild member
  · intro alone
    constructor
    · rw [others rootId (.inl listed.root), get?_root_applySplit listed]
      exact fun splits => (alone splits).1
    · intro id idNotRoot
      have splitTold : Told (state.nodes.get? id)
          ((state.applySplit runId offset).nodes.get? id) := by
        by_cases splits : Splits state runId offset
        · have quiet := alone splits
          rcases splits with ⟨_, here, positive, inside, fresh⟩
          exact (told_applySplit listed parented alive here positive inside fresh quiet.1
            idNotRoot).mpr (quiet.2 id)
        · rw [applySplit_of_not splits]
          exact told_self _
      by_cases known : (state.nodes.get? id).isSome = true ∨ id ≠ inserted.id
      · rw [others id known]
        exact splitTold
      · rw [not_or, not_not] at known
        rcases known with ⟨absent, rfl⟩
        rw [Option.not_isSome_iff_eq_none.mp absent] at splitTold ⊢
        rw [applyInsertRun]
        split
        · exact splitTold
        · dsimp only [withRun]
          rw [OrderedMap.get?_set_self]
          exact live

theorem allTold_extend (found : state.nodes.get? runId = some node) (live : node.deleted = false)
    {appendText : List UInt16} (text : appendText ≠ []) (hlc : HLCTimestamp) :
    state.AllTold (state.applyExtendRun runId appendText hlc) ↔ runId ≠ rootId := by
  have longer : node.text ++ appendText ≠ node.text := by
    intro same
    exact text (List.append_right_eq_self.mp same)
  rw [applyExtendRun, found]
  dsimp only
  rw [live, if_neg Bool.false_ne_true]
  constructor
  · rintro ⟨root, _⟩ rfl
    rw [OrderedMap.get?_set_self, found] at root
    exact longer (congrArg RunNode.text (Option.some.inj root))
  · intro notRoot
    constructor
    · exact OrderedMap.get?_set_of_ne _ (Ne.symm notRoot) _
    · intro id _
      dsimp only
      rw [OrderedMap.get?_set]
      split
      · next same =>
          rw [same, found]
          exact .inr (.inr (.inl longer))
      · exact told_self _

end Edits

/-- A deletion tells of everything if it cuts the run from its start and moves no other run, or
finds the part to cut off as a run of its own and moves no other run either. -/
def DeletesPlainly (state : DocState) (runId : String) (length : Nat) (offset count : Int) : Prop :=
  if offset = 0 then runId ≠ rootId ∧ SplitsAlone state runId count
  else (state.nodes.get? (makeSplitId runId offset)).isSome = true ∧
    (offset + count = length ∨ SplitsAlone state (makeSplitId runId offset) count)

theorem allTold_deleteRange {state : DocState} {runId : String} {node : RunNode}
    (listed : Listed state) (parented : Parented state) (alive : state.NoTombstones)
    (found : state.nodes.get? runId = some node) (live : node.deleted = false) {offset count : Int}
    (start : 0 ≤ offset) (positive : 0 < count) (inside : offset + count ≤ node.text.length) :
    state.AllTold (state.applyDeleteRange runId offset count) ↔
      DeletesPlainly state runId node.text.length offset count := by
  rw [applyDeleteRange, found]
  dsimp only
  rw [live, if_neg Bool.false_ne_true, if_neg (by omega), DeletesPlainly]
  by_cases first : offset = 0
  · have cut := allTold_cut listed parented alive found live count
    by_cases whole : count = node.text.length
    · have idle : ¬ Splits state runId count := by
        rintro ⟨other, held, _, short, _⟩
        rw [found] at held
        cases held
        omega
      rw [applySplit_of_not idle] at cut
      rw [if_pos ⟨first, whole⟩, if_pos first]
      exact cut
    · rw [if_neg (fun both => whole both.2), if_pos first, if_pos first]
      exact cut
  · rw [if_neg (fun both => first both.1), if_neg first, if_neg first]
    have notRoot := makeSplitId_ne_root runId offset
    cases taken : state.nodes.get? (makeSplitId runId offset) with
    | none =>
        -- The part to cut off is a run that comes and goes.
        have gone : ∀ middle : DocState, (middle.nodes.get? (makeSplitId runId offset)).isSome = true →
            ¬ state.AllTold (middle.tombstoneRun (makeSplitId runId offset)) := by
          intro middle stored told
          rcases get?_tombstoneRun_self stored with ⟨later, held, deleted⟩
          have shows := told.2 _ notRoot
          rw [taken, held] at shows
          rw [show later.deleted = false from shows] at deleted
          cases deleted
        have stored : ((state.applySplit runId offset).nodes.get?
            (makeSplitId runId offset)).isSome = true := by
          rw [get?_applySplit_right listed found (by omega) (by omega) taken]
          rfl
        refine iff_of_false ?_ fun plain => by cases plain.1
        split
        · exact gone _ stored
        · exact gone _ (stored_applySplit stored _ _)
    | some right =>
        have idle : ¬ Splits state runId offset := by
          rintro ⟨_, _, _, _, fresh⟩
          rw [taken] at fresh
          cases fresh
        have cut := allTold_cut listed parented alive taken (alive.live taken notRoot)
        rw [applySplit_of_not idle]
        by_cases ends : offset + count = node.text.length
        · have whole := cut 0
          rw [applySplit_of_not (fun splits => by rcases splits with ⟨_, _, none, _⟩; omega)]
            at whole
          rw [if_pos ends, whole]
          refine iff_of_true ⟨notRoot, ?_⟩ ⟨rfl, .inl ends⟩
          rintro ⟨_, _, none, _⟩
          omega
        · rw [if_neg ends, cut count]
          constructor
          · exact fun plain => ⟨rfl, .inr plain.2⟩
          · exact fun plain => ⟨notRoot, plain.2.resolve_left ends⟩

theorem kept_tombstone (runId : String) : Kept fun state =>
    ∃ node, state.nodes.get? runId = some node ∧ node.deleted = true := by
  constructor
  case insert =>
    rintro state inserted ⟨node, found, gone⟩
    refine ⟨node, ?_, gone⟩
    rw [applyInsertRun]
    split
    · exact found
    · next absent =>
        refine (OrderedMap.get?_set_of_ne _ ?_ _).trans found
        rintro rfl
        rw [found] at absent
        exact absent rfl
  case split =>
    rintro state splitRun offset ⟨node, found, gone⟩
    by_cases splits : Splits state splitRun offset
    · rcases splits with ⟨other, here, positive, inside, fresh⟩
      by_cases atRun : runId = splitRun
      · subst atRun
        rcases get?_applySplit_self here positive inside fresh with ⟨left, held, same, _⟩
        rw [found] at here
        cases here
        exact ⟨left, held, same.trans gone⟩
      · have atSplit : runId ≠ makeSplitId splitRun offset := by
          rintro rfl
          rw [found] at fresh
          cases fresh
        rw [get?_applySplit_of_ne here positive inside fresh atRun atSplit, found, Option.map_some]
        split
        · exact ⟨_, rfl, gone⟩
        · exact ⟨_, rfl, gone⟩
    · rw [applySplit_of_not splits]
      exact ⟨node, found, gone⟩
  case tombstone =>
    rintro state other ⟨node, found, gone⟩
    by_cases same : runId = other
    · subst same
      exact get?_tombstoneRun_self (by rw [found]; rfl)
    · exact ⟨node, (get?_tombstoneRun_of_ne same).trans found, gone⟩
  case extend =>
    rintro state other appendText hlc ⟨node, found, gone⟩
    rw [applyExtendRun]
    split
    · exact ⟨node, found, gone⟩
    · next extended here =>
        split
        · exact ⟨node, found, gone⟩
        · next live =>
            refine ⟨node, (OrderedMap.get?_set_of_ne _ ?_ _).trans found, gone⟩
            rintro rfl
            rw [found] at here
            cases here
            exact live gone
  case replace =>
    rintro state other newNode ⟨node, found, gone⟩
    rw [applySetRun]
    split
    · exact ⟨node, found, gone⟩
    · next existing here =>
        split
        · exact ⟨node, found, gone⟩
        · next live =>
            refine ⟨node, (OrderedMap.get?_set_of_ne _ ?_ _).trans found, gone⟩
            rintro rfl
            rw [found] at here
            cases here
            exact live gone

end DocState

/-! ## Local edits -/

namespace TextDocument

/-- The condition under which a local edit's payload is exact. An edit that is turned away
meets it. -/
def EmitsExactly (doc : TextDocument) : LocalEdit → Prop
  | .insert _ options =>
      match options.splitParentAt with
      | none => doc.state.NoTombstones
      | some splitParentAt =>
          let parentId := (options.afterRun.or doc.findLastVisibleRunId).getD rootId
          ∀ parent, doc.state.nodes.get? parentId = some parent → 1 ≤ splitParentAt →
            splitParentAt < parent.text.length →
              doc.state.NoTombstones ∧ DocState.SplitsAlone doc.state parentId splitParentAt
  | .delete runId offset count =>
      ∀ node, doc.state.nodes.get? runId = some node → node.deleted = false → 0 ≤ offset →
        0 < count → offset + count ≤ node.text.length →
          doc.state.NoTombstones ∧
            DocState.DeletesPlainly doc.state runId node.text.length offset count
  | .extend runId appendText _ =>
      ∀ node, appendText ≠ [] → doc.state.nodes.get? runId = some node → node.deleted = false →
        doc.state.NoTombstones ∧ runId ≠ rootId

variable {next : TextDocument} {now : Nat → Nat} {edit : LocalEdit}

theorem emitted_of_performed {doc : TextDocument} {runId : String} {kind : UpdateKind}
    (performed : doc.perform now edit = (next, editEvent doc.state next.state runId kind)) :
    doc.emitted now edit = diffRunMap doc.state next.state := by
  rw [emitted, performed, editEvent]
  dsimp only
  split
  · next turned =>
      split at turned
      · next empty => exact (List.eq_nil_of_length_eq_zero empty).symm
      · cases turned
  · rfl

theorem exact_of_turned {doc : TextDocument} (turned : doc.perform now edit = (next, none))
    (same : next.state = doc.state) :
    Exact doc.state (doc.perform now edit).1.state (doc.emitted now edit) := by
  have empty : doc.emitted now edit = [] := by rw [emitted, turned]
  rw [empty, turned, same]
  constructor
  case changed => exact fun runId => iff_of_false nofun fun differs => differs rfl
  case tombstones => exact fun runId member => by cases member

theorem exact_of_queued {doc : TextDocument} {runId : String} {kind : UpdateKind}
    (performed : doc.perform now edit = (next, editEvent doc.state next.state runId kind))
    (dead : ∀ id node, doc.state.nodes.get? id = some node → node.deleted = true →
      ∃ later, next.state.nodes.get? id = some later ∧ later.deleted = true) :
    Exact doc.state (doc.perform now edit).1.state (doc.emitted now edit) ↔
      doc.state.NoTombstones ∧ doc.state.AllTold next.state := by
  rw [emitted_of_performed performed, performed]
  exact exact_diffRunMap dead

section Performing

variable {doc : TextDocument}

theorem delete_exact_iff (listed : doc.state.Listed) (parented : doc.state.Parented)
    (now : Nat → Nat) (runId : String) (offset count : Int) :
    Exact doc.state (doc.perform now (.delete runId offset count)).1.state
        (doc.emitted now (.delete runId offset count)) ↔
      doc.EmitsExactly (.delete runId offset count) := by
  cases found : doc.state.nodes.get? runId with
  | none =>
      have turned : doc.perform now (.delete runId offset count) = (doc, none) := by
        rw [perform, localDelete, found]
      refine iff_of_true (exact_of_turned turned rfl) ?_
      intro node held
      rw [found] at held
      cases held
  | some node =>
      by_cases accepted : node.deleted = false ∧ 0 ≤ offset ∧ 0 < count ∧
          offset + count ≤ node.text.length
      · rcases accepted with ⟨live, start, positive, inside⟩
        have performed : doc.perform now (.delete runId offset count) =
            ({ doc.advance now with
              state := doc.state.docReducer (.deleteRange runId offset count) },
              editEvent doc.state (doc.state.docReducer (.deleteRange runId offset count)) runId
                .tombstone) := by
          rw [perform, localDelete, found]
          dsimp only
          rw [live, if_neg Bool.false_ne_true, if_neg (by omega)]
        rw [exact_of_queued performed fun id other held gone =>
          (DocState.kept_tombstone id).deleteRange ⟨other, held, gone⟩ runId offset count]
        constructor
        · rintro ⟨alive, told⟩ _ held _ _ _ _
          rw [found] at held
          cases held
          exact ⟨alive, (DocState.allTold_deleteRange listed parented alive found live start
            positive inside).mp told⟩
        · intro plain
          rcases plain node found live start positive inside with ⟨alive, plain⟩
          exact ⟨alive, (DocState.allTold_deleteRange listed parented alive found live start
            positive inside).mpr plain⟩
      · have turned : doc.perform now (.delete runId offset count) = (doc, none) := by
          rw [perform, localDelete, found]
          dsimp only
          cases live : node.deleted with
          | true => rfl
          | false =>
              have outside : ¬ (0 ≤ offset ∧ 0 < count ∧ offset + count ≤ node.text.length) :=
                fun valid => accepted ⟨live, valid⟩
              rw [if_neg Bool.false_ne_true, if_pos (by omega)]
        refine iff_of_true (exact_of_turned turned rfl) ?_
        intro _ held live start positive inside
        rw [found] at held
        cases held
        exact absurd ⟨live, start, positive, inside⟩ accepted

theorem insert_exact_iff (listed : doc.state.Listed) (parented : doc.state.Parented)
    (now : Nat → Nat) (text : List UInt16) (options : LocalInsertOptions) :
    Exact doc.state (doc.perform now (.insert text options)).1.state
        (doc.emitted now (.insert text options)) ↔
      doc.EmitsExactly (.insert text options) := by
  have inserted : ∀ (parentId : String) (offset : Int) (node : RunNode) (next : DocState),
      (options.afterRun.or doc.findLastVisibleRunId).getD rootId = parentId →
      node = doc.newRun now text parentId options.hlc →
      next = doc.state.applySplit parentId offset →
      doc.splitParent parentId options.splitParentAt = some next →
        (Exact doc.state (doc.perform now (.insert text options)).1.state
            (doc.emitted now (.insert text options)) ↔
          doc.state.NoTombstones ∧ DocState.SplitsAlone doc.state parentId offset) := by
    intro parentId offset node next parent named started split
    have performed : doc.perform now (.insert text options) =
        ({ doc.advance now with state := next.docReducer (.insertRun node) },
          editEvent doc.state (next.docReducer (.insertRun node)) node.id .insert) := by
      rw [perform, localInsert, parent]
      dsimp only
      rw [split, named]
    have live : node.deleted = false := by rw [named]; rfl
    rw [exact_of_queued performed fun id other held gone =>
      (DocState.kept_tombstone id).insert node (by
        rw [started]
        exact (DocState.kept_tombstone id).split parentId offset ⟨other, held, gone⟩)]
    apply and_congr_right
    intro alive
    rw [started]
    exact DocState.allTold_insert listed parented alive parentId offset live
  rw [EmitsExactly]
  cases splitAt : options.splitParentAt with
  | none =>
      have idle : ∀ parentId, ¬ DocState.Splits doc.state parentId 0 := by
        rintro parentId ⟨_, _, positive, _⟩
        omega
      rw [splitAt] at inserted
      rw [inserted _ 0 _ doc.state rfl rfl (DocState.applySplit_of_not (idle _)).symm rfl]
      exact and_iff_left (DocState.splitsAlone_of_not (idle _))
  | some splitParentAt =>
      rw [splitAt] at inserted
      dsimp only
      generalize named : (options.afterRun.or doc.findLastVisibleRunId).getD rootId = parentId
        at inserted ⊢
      by_cases accepted : ∃ parent, doc.state.nodes.get? parentId = some parent ∧
          1 ≤ splitParentAt ∧ splitParentAt < parent.text.length
      · have valid := accepted
        rcases accepted with ⟨parent, found, start, inside⟩
        have split : doc.splitParent parentId (some splitParentAt) =
            some (doc.state.applySplit parentId splitParentAt) := by
          rw [splitParent, found]
          dsimp only
          rw [if_pos ⟨start, inside⟩]
          rfl
        rw [inserted _ splitParentAt _ _ rfl rfl rfl split]
        constructor
        · exact fun plain _ _ _ _ => plain
        · exact fun plain => plain parent found start inside
      · have split : doc.splitParent parentId (some splitParentAt) = none := by
          rw [splitParent]
          cases found : doc.state.nodes.get? parentId with
          | none => rfl
          | some parent =>
              dsimp only
              exact if_neg fun valid => accepted ⟨parent, found, valid⟩
        have turned : doc.perform now (.insert text options) = (doc.advance now, none) := by
          rw [perform, localInsert, splitAt, named]
          dsimp only
          rw [split]
        refine iff_of_true (exact_of_turned turned rfl) ?_
        intro parent found start inside
        exact absurd ⟨parent, found, start, inside⟩ accepted

theorem extend_exact_iff (now : Nat → Nat) (runId : String) (appendText : List UInt16)
    (hlc : Option HLCTimestamp) :
    Exact doc.state (doc.perform now (.extend runId appendText hlc)).1.state
        (doc.emitted now (.extend runId appendText hlc)) ↔
      doc.EmitsExactly (.extend runId appendText hlc) := by
  by_cases accepted : appendText ≠ [] ∧ ∃ node, doc.state.nodes.get? runId = some node ∧
      node.deleted = false
  · rcases accepted with ⟨text, node, found, live⟩
    have performed : doc.perform now (.extend runId appendText hlc) =
        ({ doc.advance now with
          state := doc.state.docReducer (.extendRun runId appendText
            (hlc.getD (doc.advance now).localHlcState.packed)) },
          editEvent doc.state (doc.state.docReducer (.extendRun runId appendText
            (hlc.getD (doc.advance now).localHlcState.packed))) runId .extend) := by
      rw [perform, localExtend, if_neg (fun empty => text (List.eq_nil_of_length_eq_zero empty)),
        found]
      dsimp only
      rw [live, if_neg Bool.false_ne_true]
    rw [exact_of_queued performed fun id other held gone =>
      (DocState.kept_tombstone id).extend runId appendText _ ⟨other, held, gone⟩]
    have told := DocState.allTold_extend found live text
      (hlc.getD (doc.advance now).localHlcState.packed)
    constructor
    · rintro ⟨alive, shows⟩ _ _ _ _
      exact ⟨alive, told.mp shows⟩
    · intro plain
      rcases plain node text found live with ⟨alive, notRoot⟩
      exact ⟨alive, told.mpr notRoot⟩
  · have turned : doc.perform now (.extend runId appendText hlc) = (doc, none) := by
      rw [perform, localExtend]
      split
      · rfl
      · next size =>
          have text : appendText ≠ [] := by
            rintro rfl
            exact size rfl
          cases found : doc.state.nodes.get? runId with
          | none => rfl
          | some node =>
              cases live : node.deleted with
              | true =>
                  dsimp only
                  rw [live, if_pos rfl]
              | false => exact absurd ⟨text, node, found, live⟩ accepted
    refine iff_of_true (exact_of_turned turned rfl) ?_
    intro node text found live
    exact absurd ⟨text, node, found, live⟩ accepted

end Performing

/-- Whatever edits led to the state, a local edit's payload names exactly the runs it changed,
and tombstones only runs it deleted, if and only if the edit meets the condition. -/
theorem emitted_exact_iff {edits : List DocState.Edit} (doc : TextDocument)
    (reached : DocState.machine.run createDocState edits = some doc.state) (now : Nat → Nat)
    (edit : LocalEdit) :
    Exact doc.state (doc.perform now edit).1.state (doc.emitted now edit) ↔
      doc.EmitsExactly edit := by
  have listed := DocState.listed_of_run reached
  have parented := DocState.parented_of_run reached
  cases edit with
  | insert text options => exact insert_exact_iff listed parented now text options
  | delete runId offset count => exact delete_exact_iff listed parented now runId offset count
  | extend runId appendText hlc => exact extend_exact_iff now runId appendText hlc

/-! ### Short documents -/

def opened (edits : List DocState.Edit) : TextDocument where
  actorId := "usr_1"
  docType := "doc"
  state := edits.foldl DocState.edit createDocState
  localHlcState := { l := 0, c := 0 }
  readings := 0

/-- A run with two code units loses the first. -/
theorem emitted_exact_oneRun :
    Exact (opened [.reduce (.insertRun (DocState.run "1:usr_1" 1 [97, 98] rootId))]).state
      ((opened [.reduce (.insertRun (DocState.run "1:usr_1" 1 [97, 98] rootId))]).perform
        (fun _ => 5) (.delete "1:usr_1" 0 1)).1.state
      ((opened [.reduce (.insertRun (DocState.run "1:usr_1" 1 [97, 98] rootId))]).emitted
        (fun _ => 5) (.delete "1:usr_1" 0 1)) := by
  apply (@emitted_exact_iff [.reduce (.insertRun (DocState.run "1:usr_1" 1 [97, 98] rootId))]
    (opened [.reduce (.insertRun (DocState.run "1:usr_1" 1 [97, 98] rootId))]) rfl (fun _ => 5)
    (.delete "1:usr_1" 0 1)).mpr
  intro node found _ _ _ _
  refine ⟨fun runId other held deleted => ?_, by decide, fun _ => ⟨by decide, ?_⟩⟩
  · have listed := (OrderedMap.get?_eq_some_iff _ _ _).mp held
    have entries : (opened [.reduce (.insertRun
        (DocState.run "1:usr_1" 1 [97, 98] rootId))]).state.nodes.entries =
          [(rootId, rootNode), ("1:usr_1", DocState.run "1:usr_1" 1 [97, 98] rootId)] := rfl
    rw [entries, List.mem_cons, List.mem_singleton] at listed
    rcases listed with same | same
    · exact congrArg Prod.fst same
    · cases same
      cases deleted
  · intro child member
    cases member

def belowMissing : List DocState.Edit :=
  [.fields [("2:usr_2", some (DocState.run "2:usr_2" 2 [98] "1:usr_2"))]]

/-- A local insert elsewhere tombstones the run that has not arrived. -/
theorem belowMissing_tombstones :
    DocState.machine.run createDocState belowMissing = some (opened belowMissing).state ∧
      ("1:usr_2", none) ∈ (opened belowMissing).emitted (fun _ => 5)
        (.insert [97] { afterRun := some rootId, splitParentAt := none, hlc := none }) ∧
      ((opened belowMissing).perform (fun _ => 5)
          (.insert [97] { afterRun := some rootId, splitParentAt := none, hlc := none
            })).1.state.nodes.get? "1:usr_2" =
        (opened belowMissing).state.nodes.get? "1:usr_2" ∧
      ¬ Exact (opened belowMissing).state
        ((opened belowMissing).perform (fun _ => 5)
          (.insert [97] { afterRun := some rootId, splitParentAt := none, hlc := none })).1.state
        ((opened belowMissing).emitted (fun _ => 5)
          (.insert [97] { afterRun := some rootId, splitParentAt := none, hlc := none })) := by
  have emits : ("1:usr_2", none) ∈ (opened belowMissing).emitted (fun _ => 5)
      (.insert [97] { afterRun := some rootId, splitParentAt := none, hlc := none }) := by
    decide
  have same : ((opened belowMissing).perform (fun _ => 5)
      (.insert [97] { afterRun := some rootId, splitParentAt := none, hlc := none
        })).1.state.nodes.get? "1:usr_2" =
      (opened belowMissing).state.nodes.get? "1:usr_2" := by
    decide
  refine ⟨rfl, emits, same, fun exact' => ?_⟩
  exact (exact'.changed "1:usr_2").mp (List.mem_map.mpr ⟨_, emits, rfl⟩) same.symm

end TextDocument

end Ebb.Text
