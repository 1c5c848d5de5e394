import Ebb.Foundation.Descent
import Ebb.Text.VisiblePieces

namespace Ebb.Text

/-! Every state the reducer reaches, whatever the edits: runs may name parents that do not
exist, and the root may get text. What is listed below the root is a tree all the same. -/

namespace DocState

/-- What every change of the maps keeps. -/
structure Kept (property : DocState → Prop) : Prop where
  insert : ∀ {state} node, property state → property (state.applyInsertRun node)
  split : ∀ {state} runId offset, property state → property (state.applySplit runId offset)
  tombstone : ∀ {state} runId, property state → property (state.tombstoneRun runId)
  extend : ∀ {state} runId appendText hlc, property state →
    property (state.applyExtendRun runId appendText hlc)
  replace : ∀ {state} runId newNode, property state → property (state.applySetRun runId newNode)

section Kept

variable {property : DocState → Prop} {state : DocState}

theorem Kept.deleteRange (kept : Kept property) (holds : property state) (runId : String)
    (offset count : Int) : property (state.applyDeleteRange runId offset count) := by
  rw [applyDeleteRange]
  split
  · exact holds
  · split
    · exact holds
    · dsimp only
      split
      · exact holds
      · split
        · exact kept.tombstone _ holds
        · split
          · exact kept.tombstone _ (kept.split _ _ holds)
          · split
            · exact kept.tombstone _ (kept.split _ _ holds)
            · exact kept.tombstone _ (kept.split _ _ (kept.split _ _ holds))

theorem Kept.fieldUpdate (kept : Kept property) (holds : property state) (runId : String)
    (field : Option RunNode) : property (state.applyRunFieldUpdate runId field).1 := by
  rcases applyRunFieldUpdate_cases state runId field with
    same | ⟨node, found, live, deletes⟩ | ⟨newNode, _, replaces⟩ | ⟨newNode, base, start, _, inserts⟩
  · rw [same]
    exact holds
  · rw [deletes]
    split
    · exact holds
    · exact kept.tombstone _ holds
  · rw [replaces]
    exact kept.replace _ _ holds
  · rw [inserts]
    apply kept.insert
    rcases start with rfl | rfl
    · exact holds
    · rw [withPlaceholder]
      split
      · exact kept.insert _ holds
      · exact holds

theorem Kept.fieldUpdates (kept : Kept property) (holds : property state)
    (updates : List (String × Option RunNode)) :
    property (state.applyRunFieldUpdates updates).1 := by
  induction updates generalizing state with
  | nil => exact holds
  | cons update rest induction =>
      rw [applyRunFieldUpdates_cons]
      exact induction (kept.fieldUpdate holds _ _)

theorem Kept.edit (kept : Kept property) (holds : property state) (change : Edit) :
    property (state.edit change) := by
  cases change with
  | fields updates => exact kept.fieldUpdates holds updates
  | reduce action =>
      cases action with
      | insertRun node => exact kept.insert node holds
      | deleteRange runId offset count => exact kept.deleteRange holds runId offset count
      | split runId offset => exact kept.split runId offset holds
      | extendRun runId appendText hlc => exact kept.extend runId appendText hlc holds

theorem Kept.run (kept : Kept property) (start : property createDocState) {edits : List Edit}
    {final : DocState} (reached : machine.run createDocState edits = some final) :
    property final := by
  apply @Machine.run_induct _ _ machine (fun _ state => property state) createDocState start
    ?_ edits final reached
  intro _ state change next _ holds stepped
  cases stepped
  exact kept.edit holds change

end Kept

/-! ## Lists of children -/

/-- The lists name stored runs, each run once at most, and never the root. -/
structure Listed (state : DocState) : Prop where
  root : (state.nodes.get? rootId).isSome = true
  top : ∀ id, rootId ∉ state.childIds id
  parents : Forest.UniqueParents state.childIds
  stored : ∀ id child, child ∈ state.childIds id → (state.nodes.get? child).isSome = true
  named : ∀ id node, state.nodes.get? id = some node → node.id = id

section Listed

variable {state : DocState}

theorem Listed.exists_rooted (listed : Listed state) : ∃ tree, Rooted state tree ∧
    ∀ id, id ∈ tree.order ↔ ∃ steps, Forest.Below state.childIds steps rootId id := by
  have keys : ∀ id, (state.nodes.get? id).isSome = true → id ∈ state.nodes.keys := by
    intro id stored
    rw [OrderedMap.mem_keys_iff]
    exact Option.isSome_iff_exists.mp stored
  rcases listed.parents.exists_tree (Forest.acyclic_of_top listed.top) (keys rootId listed.root)
    (fun id child member => keys child (listed.stored id child member)) with
    ⟨tree, top, follows, nodup, reach⟩
  refine ⟨tree, ⟨top, follows, nodup, ?_, listed.named⟩, reach⟩
  intro id member
  rcases (reach id).mp member with ⟨steps, below⟩
  cases steps with
  | zero =>
      cases below
      exact listed.root
  | succ steps =>
      rcases below with ⟨parent, _, child⟩
      exact listed.stored parent id child

variable {nodes : OrderedMap String RunNode} {children others : String → List String}

theorem Listed.rewrite (listed : Listed state)
    (stored : ∀ id, (nodes.get? id).isSome = (state.nodes.get? id).isSome)
    (named : ∀ id node, nodes.get? id = some node → node.id = id) (index : PositionIndex) :
    Listed { state with nodes, index } where
  root := (stored rootId).trans listed.root
  top := listed.top
  parents := listed.parents
  stored := fun id child member => (stored child).trans (listed.stored id child member)
  named := named

theorem isSome_set_stored {id : String} (stored : (nodes.get? id).isSome = true) (node : RunNode)
    (other : String) :
    ((nodes.set id node).get? other).isSome = (nodes.get? other).isSome := by
  rw [OrderedMap.get?_set]
  split
  · next same =>
      rw [same, stored]
      rfl
  · rfl

theorem Listed.set (listed : Listed state) {id : String} {found node : RunNode}
    (present : state.nodes.get? id = some found) (named : node.id = id) (index : PositionIndex) :
    Listed { state with nodes := state.nodes.set id node, index := index } :=
  listed.rewrite (isSome_set_stored (by rw [present]; rfl) node) (named_set listed.named named) index

theorem uniqueParents_insert {parent leaf : String} (unique : Forest.UniqueParents children)
    (fresh : ∀ id, leaf ∉ children id) (place : Nat)
    (grown : others parent = (children parent).take place ++ leaf :: (children parent).drop place)
    (same : ∀ id, id ≠ parent → others id = children id) : Forest.UniqueParents others := by
  have members : ∀ {child id : String}, child ∈ others id →
      (child = leaf ∧ id = parent) ∨ child ∈ children id := by
    intro child id member
    by_cases here : id = parent
    · subst here
      rw [grown, List.perm_middle.mem_iff, List.take_append_drop, List.mem_cons] at member
      exact member.imp_left fun equal => ⟨equal, rfl⟩
    · rw [same id here] at member
      exact .inr member
  constructor
  case nodup =>
    intro id
    by_cases here : id = parent
    · subst here
      have nodup := unique.nodup id
      rw [← List.take_append_drop place (children id)] at nodup
      rw [grown]
      apply nodup_middle nodup
      rw [List.take_append_drop]
      exact fresh id
    · rw [same id here]
      exact unique.nodup id
  case unique =>
    intro child first second inFirst inSecond
    rcases members inFirst with ⟨isLeaf, atFirst⟩ | older
    · rcases members inSecond with ⟨_, atSecond⟩ | later
      · rw [atFirst, atSecond]
      · exact absurd (isLeaf ▸ later) (fresh second)
    · rcases members inSecond with ⟨isLeaf, _⟩ | later
      · exact absurd (isLeaf ▸ older) (fresh first)
      · exact unique.unique older later

theorem Listed.insert (listed : Listed state) (node : RunNode) :
    Listed (state.applyInsertRun node) := by
  rw [applyInsertRun]
  split
  · exact listed
  · next fresh =>
      have unlisted : ∀ id, node.id ∉ state.childIds id := fun id member =>
        fresh (listed.stored id node.id member)
      have table := childIds_withRun state node
      have members : ∀ {id child : String}, child ∈ (state.withRun node).childIds id →
          child = node.id ∨ child ∈ state.childIds id := by
        intro id child member
        rw [table] at member
        split at member
        · next same =>
            rw [List.perm_middle.mem_iff, List.take_append_drop, List.mem_cons] at member
            rw [same]
            exact member
        · exact .inr member
      constructor
      case root => exact isSome_set listed.root _ _
      case top =>
        intro id member
        rcases members member with same | older
        · exact fresh (same ▸ listed.root)
        · exact listed.top id older
      case parents =>
        apply uniqueParents_insert listed.parents unlisted (placeOf state node)
          ((table node.parentId).trans (if_pos rfl))
        intro id apart
        exact (table id).trans (if_neg apart)
      case stored =>
        intro id child member
        rcases members member with rfl | older
        · exact congrArg Option.isSome (OrderedMap.get?_set_self state.nodes node.id node)
        · exact isSome_set (listed.stored id child older) _ _
      case named => exact named_set listed.named rfl

theorem uniqueParents_interpose {upper lower : String} (unique : Forest.UniqueParents children)
    (fresh : ∀ id, lower ∉ children id) (apart : lower ≠ upper) (single : others upper = [lower])
    (moved : others lower = children upper)
    (same : ∀ id, id ≠ upper → id ≠ lower → others id = children id) :
    Forest.UniqueParents others := by
  have members : ∀ {child id : String}, child ∈ others id →
      (child = lower ∧ id = upper) ∨ (child ∈ children upper ∧ id = lower) ∨
        (child ∈ children id ∧ id ≠ upper ∧ id ≠ lower) := by
    intro child id member
    by_cases atUpper : id = upper
    · subst atUpper
      rw [single, List.mem_singleton] at member
      exact .inl ⟨member, rfl⟩
    · by_cases atLower : id = lower
      · subst atLower
        rw [moved] at member
        exact .inr (.inl ⟨member, rfl⟩)
      · rw [same id atUpper atLower] at member
        exact .inr (.inr ⟨member, atUpper, atLower⟩)
  constructor
  case nodup =>
    intro id
    by_cases atUpper : id = upper
    · rw [atUpper, single]
      exact List.nodup_singleton lower
    · by_cases atLower : id = lower
      · rw [atLower, moved]
        exact unique.nodup upper
      · rw [same id atUpper atLower]
        exact unique.nodup id
  case unique =>
    intro child first second inFirst inSecond
    rcases members inFirst with ⟨new, atFirst⟩ | ⟨inMoved, atFirst⟩ | ⟨older, notUpper, _⟩
    · rcases members inSecond with ⟨_, atSecond⟩ | ⟨later, _⟩ | ⟨later, _⟩
      · rw [atFirst, atSecond]
      · exact absurd (new ▸ later) (fresh upper)
      · exact absurd (new ▸ later) (fresh second)
    · rcases members inSecond with ⟨new, _⟩ | ⟨_, atSecond⟩ | ⟨later, otherUpper, _⟩
      · exact absurd (new ▸ inMoved) (fresh upper)
      · rw [atFirst, atSecond]
      · exact absurd (unique.unique later inMoved) otherUpper
    · rcases members inSecond with ⟨new, _⟩ | ⟨later, _⟩ | ⟨later, _⟩
      · exact absurd (new ▸ older) (fresh first)
      · exact absurd (unique.unique older later) notUpper
      · exact unique.unique older later

theorem childIds_split {runId : String} {offset : Int} {node : RunNode}
    (found : state.nodes.get? runId = some node) (positive : 0 < offset)
    (inside : offset < node.text.length)
    (fresh : state.nodes.get? (makeSplitId runId offset) = none) :
    (state.applySplit runId offset).childIds runId = [makeSplitId runId offset] ∧
      (state.applySplit runId offset).childIds (makeSplitId runId offset) =
        state.childIds runId ∧
      ∀ id, id ≠ runId → id ≠ makeSplitId runId offset →
        (state.applySplit runId offset).childIds id = state.childIds id := by
  have children := (applySplit_spec found positive inside fresh).2
  refine ⟨childIds_applySplit found positive inside fresh, ?_, fun id apart outside => ?_⟩
  · rw [childIds, children, OrderedMap.get?_set_of_ne _ (makeSplitId_ne_self runId offset),
      OrderedMap.get?_set_self]
    rfl
  · rw [childIds, children, OrderedMap.get?_set_of_ne _ apart, OrderedMap.get?_set_of_ne _ outside]
    rfl

theorem Listed.split (listed : Listed state) (runId : String) (offset : Int) :
    Listed (state.applySplit runId offset) := by
  rcases applySplit_cases state runId offset with
    unchanged | ⟨node, found, positive, inside, fresh⟩
  · rw [unchanged]
    exact listed
  · rcases applySplit_spec found positive inside fresh with ⟨same, children⟩
    have unlisted : ∀ id, makeSplitId runId offset ∉ state.childIds id := by
      intro id member
      have stored := listed.stored id _ member
      rw [fresh] at stored
      cases stored
    have different := makeSplitId_ne_self runId offset
    rcases childIds_split found positive inside fresh with ⟨single, moved, others⟩
    have members : ∀ {id child : String}, child ∈ (state.applySplit runId offset).childIds id →
        child = makeSplitId runId offset ∨ ∃ id, child ∈ state.childIds id := by
      intro id child member
      by_cases atRun : id = runId
      · rw [atRun, single, List.mem_singleton] at member
        exact .inl member
      · by_cases atSplit : id = makeSplitId runId offset
        · rw [atSplit, moved] at member
          exact .inr ⟨runId, member⟩
        · rw [others id atRun atSplit] at member
          exact .inr ⟨id, member⟩
    constructor
    case root => exact stored_applySplit listed.root runId offset
    case top =>
      intro id member
      rcases members member with isSplit | ⟨parent, older⟩
      · exact makeSplitId_ne_root runId offset isSplit.symm
      · exact listed.top parent older
    case parents =>
      exact uniqueParents_interpose listed.parents unlisted different single moved others
    case stored =>
      intro id child member
      rcases members member with rfl | ⟨parent, older⟩
      · rw [same.isSome, OrderedMap.get?_set_self]
        rfl
      · exact stored_applySplit (listed.stored parent child older) runId offset
    case named =>
      exact same.named (@named_set _ _ (rightHalf node runId offset)
        (@named_set _ _ (leftHalf node offset) listed.named (listed.named runId node found)) rfl)

theorem childIds_createDocState (id : String) : createDocState.childIds id = [] := by
  change ((OrderedMap.empty.set rootId []).get? id).getD [] = []
  rw [OrderedMap.get?_set]
  split
  · rfl
  · rfl

theorem listed_createDocState : Listed createDocState := by
  rcases sound_createDocState with ⟨tree, grown, _⟩
  have bare := childIds_createDocState
  constructor
  case root => rfl
  case top =>
    intro id member
    rw [bare] at member
    cases member
  case parents =>
    constructor
    case nodup =>
      intro id
      rw [bare]
      exact List.nodup_nil
    case unique =>
      intro child first second member
      rw [bare] at member
      cases member
  case stored =>
    intro id child member
    rw [bare] at member
    cases member
  case named => exact grown.named

theorem kept_listed : Kept Listed := by
  constructor
  case insert => exact fun node listed => listed.insert node
  case split => exact fun runId offset listed => listed.split runId offset
  case tombstone =>
    intro state runId listed
    rw [tombstoneRun]
    split
    · exact listed
    · next node found =>
        split
        · exact listed
        · exact @Listed.set _ listed runId node { node with deleted := true } found
            (listed.named runId node found) _
  case extend =>
    intro state runId appendText hlc listed
    rw [applyExtendRun]
    split
    · exact listed
    · next node found =>
        split
        · exact listed
        · exact @Listed.set _ listed runId node { node with text := node.text ++ appendText, hlc }
            found (listed.named runId node found) _
  case replace =>
    intro state runId newNode listed
    rw [applySetRun]
    split
    · exact listed
    · next existing found =>
        split
        · exact listed
        · exact listed.set found rfl _

theorem listed_of_run {edits : List Edit} {final : DocState}
    (reached : machine.run createDocState edits = some final) : Listed final :=
  kept_listed.run listed_createDocState reached

end Listed

/-! ## Parents -/

theorem get?_reparent (splitId : String) (childIds : List String)
    (nodes : OrderedMap String RunNode) (id : String) :
    (childIds.foldl
        (fun nodes childId =>
          match nodes.get? childId with
          | some child => nodes.set childId { child with parentId := splitId }
          | none => nodes) nodes).get? id =
      (nodes.get? id).map fun node =>
        if id ∈ childIds then { node with parentId := splitId } else node := by
  induction childIds generalizing nodes with
  | nil => simp
  | cons childId rest induction =>
      rw [List.foldl_cons, induction]
      cases found : nodes.get? childId with
      | some child =>
          dsimp only
          rw [OrderedMap.get?_set]
          by_cases same : id = childId
          · rw [if_pos same, same, found]
            simp
          · rw [if_neg same]
            simp [same]
      | none =>
          by_cases same : id = childId
          · rw [same, found]
            rfl
          · simp [same]

theorem get?_applySplit {state : DocState} {runId : String} {offset : Int} {node : RunNode}
    (found : state.nodes.get? runId = some node) (positive : 0 < offset)
    (inside : offset < node.text.length)
    (fresh : state.nodes.get? (makeSplitId runId offset) = none) (id : String) :
    (state.applySplit runId offset).nodes.get? id =
      (((state.nodes.set runId (leftHalf node offset)).set (makeSplitId runId offset)
        (rightHalf node runId offset)).get? id).map fun node =>
          if id ∈ state.childIds runId then { node with parentId := makeSplitId runId offset }
          else node := by
  have written := get?_reparent (makeSplitId runId offset) (state.childIds runId)
    ((state.nodes.set runId (leftHalf node offset)).set (makeSplitId runId offset)
      (rightHalf node runId offset)) id
  rw [applySplit, found]
  dsimp only
  rw [if_neg (by omega), if_neg (by rw [fresh]; exact Bool.false_ne_true), ← written]
  split
  · rfl
  · split
    · rfl
    · rfl

def Parented (state : DocState) : Prop :=
  ∀ id child node, child ∈ state.childIds id → state.nodes.get? child = some node →
    node.parentId = id

theorem Parented.set {state : DocState} (parented : Parented state) {id : String}
    {found node : RunNode} (present : state.nodes.get? id = some found)
    (same : node.parentId = found.parentId) (index : PositionIndex) :
    Parented { state with nodes := state.nodes.set id node, index := index } := by
  intro parent child other member held
  change (state.nodes.set id node).get? child = some other at held
  rw [OrderedMap.get?_set] at held
  split at held
  · next here =>
      cases held
      exact same.trans (parented parent child found member (here ▸ present))
  · exact parented parent child other member held

theorem Parented.insert {state : DocState} (parented : Parented state) (listed : Listed state)
    (node : RunNode) : Parented (state.applyInsertRun node) := by
  rw [applyInsertRun]
  split
  · exact parented
  · next fresh =>
      intro parent child other member held
      change (state.nodes.set node.id node).get? child = some other at held
      have older : child ∈ state.childIds parent → other.parentId = parent := by
        intro earlier
        have apart : child ≠ node.id := by
          rintro rfl
          exact fresh (listed.stored parent _ earlier)
        rw [OrderedMap.get?_set_of_ne _ apart] at held
        exact parented parent child other earlier held
      have place := childIds_withRun state node parent
      change child ∈ (state.withRun node).childIds parent at member
      rw [place] at member
      split at member
      · next here =>
          rw [List.perm_middle.mem_iff, List.take_append_drop, List.mem_cons] at member
          rcases member with rfl | earlier
          · rw [OrderedMap.get?_set_self] at held
            cases held
            exact here.symm
          · exact older (here ▸ earlier)
      · exact older member

theorem Parented.split {state : DocState} (parented : Parented state) (listed : Listed state)
    (runId : String) (offset : Int) : Parented (state.applySplit runId offset) := by
  rcases applySplit_cases state runId offset with
    unchanged | ⟨node, found, positive, inside, fresh⟩
  · rw [unchanged]
    exact parented
  · rcases childIds_split found positive inside fresh with ⟨single, moved, others⟩
    intro parent child other member held
    rw [get?_applySplit found positive inside fresh] at held
    rcases Option.map_eq_some_iff.mp held with ⟨earlier, before, rfl⟩
    have new : ∀ id, makeSplitId runId offset ∉ state.childIds id := by
      intro id listed'
      have stored := listed.stored id _ listed'
      rw [fresh] at stored
      cases stored
    by_cases atRun : parent = runId
    · rw [atRun, single, List.mem_singleton] at member
      rw [member, OrderedMap.get?_set_self] at before
      cases before
      rw [atRun, member, if_neg (new runId)]
      rfl
    · by_cases atSplit : parent = makeSplitId runId offset
      · rw [atSplit, moved] at member
        rw [atSplit, if_pos member]
      · rw [others parent atRun atSplit] at member
        have elsewhere : child ∉ state.childIds runId := fun inRun =>
          atRun (listed.parents.unique member inRun)
        have apart : child ≠ makeSplitId runId offset := by
          rintro rfl
          exact new parent member
        rw [if_neg elsewhere]
        rw [OrderedMap.get?_set_of_ne _ apart, OrderedMap.get?_set] at before
        split at before
        · next here =>
            cases before
            exact parented parent child node member (here ▸ found)
        · exact parented parent child earlier member before

theorem kept_parented : Kept fun state => Listed state ∧ Parented state := by
  constructor
  case insert =>
    exact fun node holds => ⟨holds.1.insert node, holds.2.insert holds.1 node⟩
  case split =>
    exact fun runId offset holds =>
      ⟨holds.1.split runId offset, holds.2.split holds.1 runId offset⟩
  case tombstone =>
    intro state runId holds
    refine ⟨kept_listed.tombstone runId holds.1, ?_⟩
    rw [tombstoneRun]
    split
    · exact holds.2
    · next node found =>
        split
        · exact holds.2
        · exact @Parented.set _ holds.2 runId node { node with deleted := true } found rfl _
  case extend =>
    intro state runId appendText hlc holds
    refine ⟨kept_listed.extend runId appendText hlc holds.1, ?_⟩
    rw [applyExtendRun]
    split
    · exact holds.2
    · next node found =>
        split
        · exact holds.2
        · exact @Parented.set _ holds.2 runId node
            { node with text := node.text ++ appendText, hlc } found rfl _
  case replace =>
    intro state runId newNode holds
    refine ⟨kept_listed.replace runId newNode holds.1, ?_⟩
    rw [applySetRun]
    split
    · exact holds.2
    · next existing found =>
        split
        · exact holds.2
        · exact @Parented.set _ holds.2 runId existing { newNode with
            id := runId
            parentId := existing.parentId
            deleted := false } found rfl _

theorem parented_of_run {edits : List Edit} {final : DocState}
    (reached : machine.run createDocState edits = some final) : Parented final := by
  apply (kept_parented.run ⟨listed_createDocState, ?_⟩ reached).2
  intro id child node member
  rw [childIds_createDocState] at member
  cases member

end DocState

end Ebb.Text
