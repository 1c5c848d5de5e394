import Ebb.Sync.ConflictSlots

namespace Ebb.Sync

open Ebb.Wire

/-! The verdict on a slot against the merge of the two field values. The verdict knows only the
sides of the slot, so it cannot see which keys of a map the merge keeps. -/

variable {V : Type}

/-! ## The merge at a path -/

theorem get?_nodeAtPath (value : Property V) (path rest : List String) :
    (nodeAtPath value path).get? rest = value.get? (path ++ rest) := by
  induction path generalizing value with
  | nil => rfl
  | cons key path induction =>
      cases value with
      | undefined => rfl
      | inherited => rfl
      | field value =>
          cases value with
          | leaf leaf => rfl
          | map entries =>
              rw [nodeAtPath, induction, get?_readProperty, ← KeyedTree.get?_map_cons]
              rfl

theorem get?_mergeEntries {pending remote : List (String × WireField V)}
    (distinct : (remote.map Prod.fst).Nodup) {key : String} {value : WireField V}
    (found : remote.lookup key = some value) (path : List String) :
    (Wire.mergeFieldValue (.field (.map pending)) (.map remote)).get? (key :: path) =
      (Wire.mergeFieldValue (readProperty pending key) value).get? path := by
  rw [Wire.mergeFieldValue_field, Property.get?, merged, KeyedTree.get?_join_cons distinct, found]
  cases held : pending.lookup key with
  | some previous =>
      have read : readProperty pending key = .field previous := by rw [readProperty, held]
      rw [read, Wire.mergeFieldValue_field]
      rfl
  | none =>
      by_cases inherited : key ∈ objectPrototype
      · have read : readProperty pending key = .inherited := by
          rw [readProperty, held]
          exact if_pos inherited
        rw [read, KeyedTree.joinEntry]
        cases value with
        | map entries => simp [KeyedTree.admitted, Wire.mergeFieldValue, KeyedTree.entryGet?, Property.get?]
        | leaf leaf =>
            by_cases later : 0 < leaf.time
            · simp [KeyedTree.admitted, writesNew, Wire.mergeFieldValue, later, KeyedTree.entryGet?, Property.get?]
            · simp [KeyedTree.admitted, writesNew, Wire.mergeFieldValue, later, inherited,
                KeyedTree.entryGet?, Property.get?]
      · have read : readProperty pending key = .undefined := by
          rw [readProperty, held]
          exact if_neg inherited
        have admits : KeyedTree.admitted writesNew key value = true := by
          cases value <;> simp [KeyedTree.admitted, writesNew, inherited]
        rw [read, KeyedTree.joinEntry, if_pos admits, Wire.mergeFieldValue]
        rfl

variable {path : List String} {node remote pending : WireField V} {slot : ConflictSlot}

theorem nodeAtPath_ne_field_of_undefined : nodeAtPath .undefined path ≠ .field node := by
  cases path <;> simp [nodeAtPath]

theorem nodeAtPath_ne_field_of_inherited : nodeAtPath .inherited path ≠ .field node := by
  cases path <;> simp [nodeAtPath]

theorem exists_child_of_nodeAtPath {entries : List (String × WireField V)} {key : String}
    (reached : nodeAtPath (.field (.map entries)) (key :: path) = .field node) :
    ∃ child, entries.lookup key = some child ∧ nodeAtPath (.field child) path = .field node := by
  rw [nodeAtPath] at reached
  cases read : readProperty entries key with
  | undefined => exact absurd (read ▸ reached) nodeAtPath_ne_field_of_undefined
  | inherited => exact absurd (read ▸ reached) nodeAtPath_ne_field_of_inherited
  | field child => exact ⟨child, lookup_of_readProperty read, read ▸ reached⟩

theorem keyed_nodeAtPath {value : WireField V} (keyed : value.Keyed)
    (reached : nodeAtPath (.field value) path = .field node) : node.Keyed := by
  induction path generalizing value with
  | nil =>
      cases reached
      exact keyed
  | cons key path induction =>
      cases value with
      | leaf leaf => cases reached
      | map entries =>
          obtain ⟨child, found, below⟩ := exists_child_of_nodeAtPath reached
          exact induction (KeyedTree.entriesKeyed_lookup keyed.2 found) below

theorem merge_nodeAtPath (keyed : remote.Keyed)
    (reached : nodeAtPath (.field remote) path = .field node) (pending : Property V)
    (rest : List String) :
    (Wire.mergeFieldValue pending remote).get? (path ++ rest) =
      (Wire.mergeFieldValue (nodeAtPath pending path) node).get? rest := by
  induction path generalizing pending remote with
  | nil =>
      cases reached
      rfl
  | cons key path induction =>
      cases remote with
      | leaf leaf => cases reached
      | map entries =>
          obtain ⟨child, found, below⟩ := exists_child_of_nodeAtPath reached
          have merges := induction (KeyedTree.entriesKeyed_lookup keyed.2 found) below
          -- Where no map stands, the incoming map is taken as it is.
          have whole : (Property.field (.map entries)).get? (key :: path ++ rest) =
              (Property.field node).get? rest := by
            rw [← reached, get?_nodeAtPath]
          cases pending with
          | undefined => simpa only [nodeAtPath, Wire.mergeFieldValue] using whole
          | inherited => simpa only [nodeAtPath, Wire.mergeFieldValue] using whole
          | field pending =>
              cases pending with
              | leaf leaf => simpa only [nodeAtPath, Wire.mergeFieldValue] using whole
              | map pending =>
                  rw [List.cons_append, get?_mergeEntries keyed.1 found, nodeAtPath]
                  exact merges (readProperty pending key)

/-! ## When the verdict is right -/

def Replaces (pending remote : WireLeaf V) : Prop :=
  pending = remote ∨ pending.time < remote.time ∨
    pending.time = remote.time ∧ updateIdGe remote.updateId pending.updateId = true

theorem mergeLeaf_eq_incoming_iff (pending remote : WireLeaf V) :
    Wire.mergeLeaf pending remote = remote ↔ Replaces pending remote := by
  rw [Wire.mergeLeaf, Replaces]
  split
  · next earlier => simp [earlier]
  · next notEarlier =>
      split
      · next later =>
          have apart : pending.time ≠ remote.time := Nat.ne_of_gt later
          simp [notEarlier, apart]
      · next notLater =>
          have level : pending.time = remote.time :=
            Nat.le_antisymm (Nat.not_lt.mp notLater) (Nat.not_lt.mp notEarlier)
          split
          · next larger => simp [level, larger]
          · next smaller => simp [notEarlier, smaller]

/-- Nothing of the pending map is left in the merge: the remote map has every key of it, its
leaves replace the pending ones, and it writes no leaf of time zero under an inherited name. -/
structure Absorbed (pending remote : WireField V) : Prop where
  keys : ∀ path key, pending.get? path = some .map → remote.get? path = some .map →
    remote.get? (path ++ [key]) = none → pending.get? (path ++ [key]) = none
  leaves : ∀ path first second, pending.get? path = some (.leaf first) →
    remote.get? path = some (.leaf second) → Replaces first second
  inherited : ∀ path key leaf, pending.get? path = some .map →
    pending.get? (path ++ [key]) = none → remote.get? (path ++ [key]) = some (.leaf leaf) →
      key ∈ objectPrototype → 0 < leaf.time

theorem same_merged_iff (keyed : remote.Keyed) :
    KeyedTree.Same (merged pending remote) remote ↔ Absorbed pending remote := by
  have admits : KeyedTree.AdmitsNew writesNew pending remote ↔
      ∀ path key leaf, pending.get? path = some .map → pending.get? (path ++ [key]) = none →
        remote.get? (path ++ [key]) = some (.leaf leaf) → key ∈ objectPrototype →
          0 < leaf.time := by
    simp [KeyedTree.AdmitsNew, writesNew, imp_iff_not_or]
  rw [merged, KeyedTree.same_incoming_iff keyed, admits]
  simp only [mergeLeaf_eq_incoming_iff]
  constructor
  · rintro ⟨leaves, inherited, keys⟩
    exact ⟨keys, leaves, inherited⟩
  · intro absorbed
    exact ⟨absorbed.leaves, absorbed.inherited, absorbed.keys⟩

/-- What stands at a slot's path in the pending and in the remote value, where the verdict is
the merge's: two maps only when the remote one absorbs the pending one, two leaves without an
update id only when the remote one replaces the pending one, and under a name that the pending
map inherits no remote leaf of time zero. -/
def Mirrored : Property V → Property V → Prop
  | .field (.map pending), .field (.map remote) => Absorbed (.map pending) (.map remote)
  | .field (.leaf pending), .field (.leaf remote) =>
      pending.updateId = none ∨ remote.updateId = none → Replaces pending remote
  | .inherited, .field (.leaf remote) => 0 < remote.time
  | _, _ => True

/-- The merge leaves the remote value at the path, or there is none. -/
def RemoteTaken (pending : WireField V) (remote : Option (WireField V)) (path : List String) :
    Prop :=
  ∀ value, remote = some value → value.get? path ≠ none →
    ∀ rest, (Wire.mergeFieldValue (.field pending) value).get? (path ++ rest) =
      value.get? (path ++ rest)

def remoteNode (remote : Option (WireField V)) (path : List String) : Property V :=
  match remote with
  | none => .undefined
  | some remote => nodeAtPath (.field remote) path

theorem remoteTaken_of_absent {remote : Option (WireField V)}
    (absent : ∀ node, remoteNode remote path ≠ .field node) :
    RemoteTaken pending remote path := by
  rintro value rfl present
  have read := get?_nodeAtPath (.field value) path []
  rw [List.append_nil] at read
  cases node : nodeAtPath (.field value) path with
  | field child => exact absurd node (absent child)
  | undefined =>
      rw [node] at read
      exact absurd read.symm present
  | inherited =>
      rw [node] at read
      exact absurd read.symm present

theorem remoteTaken_iff (keyed : remote.Keyed)
    (reached : nodeAtPath (.field remote) path = .field node) :
    RemoteTaken pending (some remote) path ↔
      ∀ rest, (Wire.mergeFieldValue (nodeAtPath (.field pending) path) node).get? rest =
        node.get? rest := by
  have remoteReads : ∀ rest, remote.get? (path ++ rest) = node.get? rest := by
    intro rest
    have read := get?_nodeAtPath (.field remote) path rest
    rw [reached] at read
    exact read.symm
  have present : remote.get? path ≠ none := by
    have read := remoteReads []
    rw [List.append_nil] at read
    rw [read]
    cases node <;> simp [KeyedTree.get?]
  constructor
  · intro taken rest
    have read := taken remote rfl present rest
    rwa [merge_nodeAtPath keyed reached, remoteReads] at read
  · intro reads value same _ rest
    cases same
    rw [merge_nodeAtPath keyed reached, remoteReads, reads]

theorem sideRemoteWins_of_absent
    (absent : slot.localSide.updateId = none ∨ slot.remoteSide.updateId = none) :
    sideRemoteWins slot = true := by
  obtain absent | absent := absent <;> simp [sideRemoteWins, isLeafSide, absent]

theorem sideRemoteWins_leaves {pending remote : WireLeaf JsonValue}
    (pendingSide : slot.localSide = conflictSide (.field (.leaf pending)))
    (remoteSide : slot.remoteSide = conflictSide (.field (.leaf remote)))
    (ids : ¬ (pending.updateId = none ∨ remote.updateId = none)) :
    sideRemoteWins slot = true ↔ Replaces pending remote := by
  obtain ⟨pendingId, hasPending⟩ := Option.ne_none_iff_exists'.mp fun none => ids (.inl none)
  obtain ⟨remoteId, hasRemote⟩ := Option.ne_none_iff_exists'.mp fun none => ids (.inr none)
  have times : slot.localSide.time = pending.time ∧ slot.remoteSide.time = remote.time := by
    rw [pendingSide, remoteSide]
    exact ⟨rfl, rfl⟩
  have verdict : sideRemoteWins slot =
      if pending.time ≠ remote.time then decide (pending.time < remote.time)
      else updateIdGe remote.updateId pending.updateId := by
    rw [sideRemoteWins, times.1, times.2, pendingSide, remoteSide]
    simp [isLeafSide, conflictSide, hasPending, hasRemote]
  rw [verdict, Replaces]
  by_cases level : pending.time = remote.time
  · have reflexive : pending = remote → updateIdGe remote.updateId pending.updateId = true := by
      rintro rfl
      rw [hasPending, updateIdGe, codeUnitsGe_iff]
      exact List.le_refl _
    simp only [level, ne_eq, not_true_eq_false, if_false, Nat.lt_irrefl, true_and, false_or]
    exact ⟨.inr, fun either => either.elim reflexive id⟩
  · have apart : pending ≠ remote := fun same => level (same ▸ rfl)
    simp [level, apart]

theorem mirrored_of_absent {pending remote : Property V} (absent : ∀ node, remote ≠ .field node) :
    Mirrored pending remote := by
  cases remote with
  | field node => exact absurd rfl (absent node)
  | undefined => cases pending with
    | field node => cases node <;> trivial
    | undefined => trivial
    | inherited => trivial
  | inherited => cases pending with
    | field node => cases node <;> trivial
    | undefined => trivial
    | inherited => trivial

theorem verdict_iff_of_nodes {pending : Property JsonValue} {node : WireField JsonValue}
    (keyed : node.Keyed) (pendingSide : slot.localSide = conflictSide pending)
    (remoteSide : slot.remoteSide = conflictSide (.field node)) :
    (sideRemoteWins slot = true ↔
      ∀ rest, (Wire.mergeFieldValue pending node).get? rest = node.get? rest) ↔
    Mirrored pending (.field node) := by
  have pendingId := congrArg ConflictSide.updateId pendingSide
  have remoteId := congrArg ConflictSide.updateId remoteSide
  cases pending with
  | undefined =>
      have wins : sideRemoteWins slot = true := sideRemoteWins_of_absent (.inl pendingId)
      simp [wins, Wire.mergeFieldValue, Mirrored, Property.get?]
  | inherited =>
      have wins : sideRemoteWins slot = true := sideRemoteWins_of_absent (.inl pendingId)
      cases node with
      | map entries => simp [wins, Wire.mergeFieldValue, Mirrored, Property.get?]
      | leaf leaf =>
          by_cases later : 0 < leaf.time
          · simp [wins, Wire.mergeFieldValue, Mirrored, later, Property.get?]
          · have lost : ¬ ∀ rest, none = (KeyedTree.leaf leaf : WireField JsonValue).get? rest :=
              fun reads => Option.some_ne_none _ (reads []).symm
            simp [wins, Wire.mergeFieldValue, Mirrored, later, Property.get?, lost]
  | field pending =>
      cases pending with
      | leaf leaf =>
          cases node with
          | map entries =>
              have wins : sideRemoteWins slot = true := sideRemoteWins_of_absent (.inr remoteId)
              simp [wins, Wire.mergeFieldValue, Mirrored, Property.get?]
          | leaf remote =>
              have reads : (∀ rest, (Wire.mergeFieldValue (.field (.leaf leaf))
                  (.leaf remote)).get? rest = (KeyedTree.leaf remote).get? rest) ↔
                  Replaces leaf remote := by
                rw [← mergeLeaf_eq_incoming_iff, Wire.mergeFieldValue]
                constructor
                · intro reads
                  exact KeyedTree.Node.leaf.inj (Option.some.inj (reads []))
                · intro same rest
                  rw [same]
                  rfl
              rw [reads, Mirrored]
              by_cases ids : leaf.updateId = none ∨ remote.updateId = none
              · have wins : sideRemoteWins slot = true := sideRemoteWins_of_absent
                  (ids.imp (fun none => pendingId.trans none) fun none => remoteId.trans none)
                simp [wins, ids]
              · simp [sideRemoteWins_leaves pendingSide remoteSide ids, ids]
      | map entries =>
          have wins : sideRemoteWins slot = true := sideRemoteWins_of_absent (.inl pendingId)
          cases node with
          | leaf remote => simp [wins, Wire.mergeFieldValue, Mirrored, Property.get?]
          | map remote =>
              rw [Mirrored, ← same_merged_iff keyed, mergeFieldValue_field]
              simp [wins, KeyedTree.Same, Property.get?]

/-- The verdict on a slot is the merge's exactly when the nodes at its path are mirrored. -/
theorem sideRemoteWins_mirrors_iff (subjectId field : String) (path : List String)
    (pending : WireField JsonValue) (remote : Option (WireField JsonValue))
    (wellFormed : ∀ value, remote = some value → WellFormed value) :
    (sideRemoteWins (conflictSlot subjectId field path pending remote) = true ↔
      RemoteTaken pending remote path) ↔
    Mirrored (nodeAtPath (.field pending) path) (remoteNode remote path) := by
  have remoteSide : (conflictSlot subjectId field path pending remote).remoteSide =
      conflictSide (remoteNode remote path) := by
    cases remote <;> rfl
  by_cases holds : ∃ node, remoteNode remote path = .field node
  · obtain ⟨node, reached⟩ := holds
    cases remote with
    | none => cases reached
    | some remote =>
        have keyed := (wellFormed remote rfl).keyed
        rw [remoteTaken_iff keyed reached, reached]
        exact verdict_iff_of_nodes (keyed_nodeAtPath keyed reached) rfl (reached ▸ remoteSide)
  · have absent : ∀ node, remoteNode remote path ≠ .field node :=
      fun node reached => holds ⟨node, reached⟩
    have noId : (conflictSide (remoteNode remote path)).updateId = none := by
      cases reached : remoteNode remote path with
      | field node => exact absurd reached (absent node)
      | undefined => rfl
      | inherited => rfl
    have wins := sideRemoteWins_of_absent (.inr ((congrArg ConflictSide.updateId remoteSide).trans noId))
    simp [wins, remoteTaken_of_absent absent, mirrored_of_absent absent]

def draftTitle : WireField JsonValue :=
  .leaf { value := .text "draft", updateId := some "upd_a", hlc := some 5 }

def publishedTitle : WireField JsonValue :=
  .leaf { value := .text "published", updateId := some "upd_b", hlc := some 5 }

theorem sideRemoteWins_mirrors_titles :
    sideRemoteWins (conflictSlot "todo_1" "title" [] draftTitle (some publishedTitle)) = true ↔
      RemoteTaken draftTitle (some publishedTitle) [] := by
  apply (sideRemoteWins_mirrors_iff "todo_1" "title" [] draftTitle (some publishedTitle) ?_).mpr
  · intro absent
    obtain absent | absent := absent <;> cases absent
  · intro value same
    cases same
    exact wellFormed_leaf _

/-! ## A slot with two maps -/

def contentLeaf (update_id : String) (time : Nat) : WireField JsonValue :=
  .leaf { value := .text "text", updateId := some update_id, hlc := some time }

def localContent : WireField JsonValue := .map [("run_a", contentLeaf "upd_a" 9)]

def missedWrite (gsn : Nat) (content : WireField JsonValue) : InboundAction where
  id := "act_m"
  gsn := gsn
  updates := [{ subjectId := "doc_1", subjectType := "doc", method := .patch,
                data := some [("content", content)] }]

def remoteContent : WireField JsonValue := .map [("run_b", contentLeaf "upd_c" 6)]

/-- The first missed Action writes the whole field as a leaf, the second a run of it. -/
def missedWindow : List InboundAction :=
  [missedWrite 1 (contentLeaf "upd_b" 5), missedWrite 2 remoteContent]

/-- The verdict gives the field to the server, while the merge keeps the buffered run. -/
theorem not_sideRemoteWins_mirrors :
    ∃ actionInbound inbound,
      (inboundSubjects (missedWrite 1 (contentLeaf "upd_b" 5))).get? "doc_1" = some actionInbound ∧
      (foldInboundWindow missedWindow).get? "doc_1" = some inbound ∧
      ∃ slot ∈ contestedSlots "doc_1" "content" localContent actionInbound inbound,
        ¬ (sideRemoteWins slot = true ↔
          RemoteTaken localContent (inbound.fields.get? "content") slot.path) := by
  refine ⟨_, _, rfl, rfl, _, List.mem_singleton_self _, fun mirrors => ?_⟩
  have taken : RemoteTaken localContent (some remoteContent) [] := mirrors.mp rfl
  have reads : (Wire.mergeFieldValue (.field localContent) remoteContent).get? ["run_a"] =
      remoteContent.get? ["run_a"] :=
    taken remoteContent rfl (Option.some_ne_none _) ["run_a"]
  have kept : (Wire.mergeFieldValue (.field localContent) remoteContent).get? ["run_a"] =
      localContent.get? ["run_a"] := by rfl
  rw [kept] at reads
  cases reads

end Ebb.Sync
