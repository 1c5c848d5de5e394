import Ebb.Foundation.Bag
import Ebb.Storage.ReplicaViews

namespace Ebb.Storage.LiveReplica

/-! The change journal of the replica: between any two moments it holds every view whose
content changed, and when a call that changes no content leaves the revision alone. -/

variable {options : ReplicaOptions V} {replica : LiveReplica V} {W : Type} {valueOf : V → W}

/-! ## The retained window -/

/-- The retained changes ascend, above the floor and up to the revision. -/
structure Journaled (replica : LiveReplica V) : Prop where
  ascending : replica.journal.Pairwise fun earlier later => earlier.revision < later.revision
  above : ∀ change ∈ replica.journal, replica.changeFloor < change.revision
  upTo : ∀ change ∈ replica.journal, change.revision ≤ replica.revision
  floor : replica.changeFloor ≤ replica.revision

theorem journaled_empty : Journaled (empty : LiveReplica V) where
  ascending := List.Pairwise.nil
  above := nofun
  upTo := nofun
  floor := Nat.le_refl 0

theorem Journaled.congr {left right : LiveReplica V} (journaled : Journaled left)
    (journal : right.journal = left.journal) (revision : right.revision = left.revision)
    (floor : right.changeFloor = left.changeFloor) : Journaled right where
  ascending := journal ▸ journaled.ascending
  above := by
    rw [journal, floor]
    exact journaled.above
  upTo := by
    rw [journal, revision]
    exact journaled.upTo
  floor := by
    rw [floor, revision]
    exact journaled.floor

theorem trimJournal_spec (journaled : Journaled replica) :
    Journaled (replica.trimJournal options) ∧
      (replica.trimJournal options).revision = replica.revision ∧
      replica.changeFloor ≤ (replica.trimJournal options).changeFloor ∧
      ∀ change ∈ replica.journal, (replica.trimJournal options).changeFloor < change.revision →
        change ∈ (replica.trimJournal options).journal := by
  rw [trimJournal]
  split
  · exact ⟨journaled, rfl, Nat.le_refl _, fun change member _ => member⟩
  · next capacity _ =>
      dsimp only
      split
      · exact ⟨journaled, rfl, Nat.le_refl _, fun change member _ => member⟩
      · next dropped last =>
          have split := List.take_append_drop (replica.journal.length - capacity) replica.journal
          have ascending := journaled.ascending
          rw [← split] at ascending
          have parts := List.pairwise_append.mp ascending
          have inTaken := List.mem_of_getLast? last
          have droppedIn := List.mem_of_mem_take inTaken
          -- The last dropped change is the newest of the dropped ones.
          have newest : ∀ change ∈ replica.journal.take (replica.journal.length - capacity),
              change.revision ≤ dropped.revision := by
            intro change member
            rcases List.getLast?_eq_some_iff.mp last with ⟨earlier, taken⟩
            have order := parts.1
            rw [taken] at member order
            rcases List.mem_append.mp member with before | here
            · have later := (List.pairwise_append.mp order).2.2 change before dropped
                (List.mem_singleton.mpr rfl)
              exact Nat.le_of_lt later
            · exact Nat.le_of_eq (congrArg _ (List.mem_singleton.mp here))
          refine ⟨⟨?_, ?_, ?_, ?_⟩, rfl, ?_, ?_⟩
          · exact parts.2.1
          · exact fun change member => parts.2.2 dropped inTaken change member
          · exact fun change member => journaled.upTo change (List.mem_of_mem_drop member)
          · exact journaled.upTo dropped droppedIn
          · exact Nat.le_of_lt (journaled.above dropped droppedIn)
          · intro change member above
            rw [← split] at member
            rcases List.mem_append.mp member with taken | kept
            · exact absurd above (Nat.not_lt.mpr (newest change taken))
            · exact kept

theorem bump_spec (journaled : Journaled replica) (id type : String) (deleted : Bool) :
    Journaled (replica.bump options id type deleted) ∧
      (replica.bump options id type deleted).revision = replica.revision + 1 ∧
      replica.changeFloor ≤ (replica.bump options id type deleted).changeFloor ∧
      ∀ change, change ∈ replica.journal ∨
          change = { revision := replica.revision + 1, id, type, deleted } →
        (replica.bump options id type deleted).changeFloor < change.revision →
          change ∈ (replica.bump options id type deleted).journal := by
  have pushed : Journaled { replica with
      revision := replica.revision + 1
      journal := replica.journal ++ [{ revision := replica.revision + 1, id, type, deleted }] } := by
    constructor
    case ascending =>
      apply List.pairwise_append.mpr
      refine ⟨journaled.ascending, List.pairwise_singleton _ _, ?_⟩
      intro earlier member later here
      rw [List.mem_singleton.mp here]
      exact Nat.lt_succ_of_le (journaled.upTo earlier member)
    case above =>
      intro change member
      rcases List.mem_append.mp member with earlier | here
      · exact journaled.above change earlier
      · rw [List.mem_singleton.mp here]
        exact Nat.lt_succ_of_le journaled.floor
    case upTo =>
      intro change member
      rcases List.mem_append.mp member with earlier | here
      · exact Nat.le_succ_of_le (journaled.upTo change earlier)
      · exact Nat.le_of_eq (congrArg _ (List.mem_singleton.mp here))
    case floor => exact Nat.le_succ_of_le journaled.floor
  have trimmed := @trimJournal_spec V options _ pushed
  refine ⟨trimmed.1, trimmed.2.1, trimmed.2.2.1, ?_⟩
  intro change member above
  apply trimmed.2.2.2 change ?_ above
  rcases member with earlier | here
  · exact List.mem_append_left _ earlier
  · exact List.mem_append_right _ (List.mem_singleton.mpr here)

/-! ## What the journal records between two states -/

/-- From one state to a later one, no retained change is lost, and every view outside
`todo` whose content differs is noted, or the floor has passed the earlier revision. -/
structure RecordedExcept (valueOf : V → W) (todo : List String) (before after : LiveReplica V) :
    Prop where
  revision : before.revision ≤ after.revision
  floor : before.changeFloor ≤ after.changeFloor
  kept : ∀ change ∈ before.journal, after.changeFloor < change.revision → change ∈ after.journal
  noted : ∀ id, id ∉ todo → SameContent valueOf (before.viewOf id) (after.viewOf id) ∨
    before.revision < after.changeFloor ∨
    ∃ change ∈ after.journal, before.revision < change.revision ∧ change.id = id

section Recorded

variable {before middle after : LiveReplica V} {todo : List String}

theorem RecordedExcept.refl (todo : List String) (replica : LiveReplica V) :
    RecordedExcept valueOf todo replica replica where
  revision := Nat.le_refl _
  floor := Nat.le_refl _
  kept := fun _ member _ => member
  noted := fun _ _ => .inl (SameContent.refl _)

theorem RecordedExcept.trans (first : RecordedExcept valueOf todo before middle)
    (second : RecordedExcept valueOf [] middle after) :
      RecordedExcept valueOf todo before after where
  revision := Nat.le_trans first.revision second.revision
  floor := Nat.le_trans first.floor second.floor
  kept := by
    intro change member above
    exact second.kept change
      (first.kept change member (Nat.lt_of_le_of_lt second.floor above)) above
  noted := by
    intro id outside
    rcases second.noted id List.not_mem_nil with same | passed | ⟨change, member, later, named⟩
    · rcases first.noted id outside with earlier | passed | ⟨change, member, later, named⟩
      · exact .inl (earlier.trans same)
      · exact .inr (.inl (Nat.lt_of_lt_of_le passed second.floor))
      · rcases Nat.lt_or_ge after.changeFloor change.revision with above | below
        · exact .inr (.inr ⟨change, second.kept change member above, later, named⟩)
        · exact .inr (.inl (Nat.lt_of_lt_of_le later below))
    · exact .inr (.inl (Nat.lt_of_le_of_lt first.revision passed))
    · exact .inr (.inr ⟨change, member, Nat.lt_of_le_of_lt first.revision later, named⟩)

theorem RecordedExcept.quiet (recorded : RecordedExcept valueOf todo before middle)
    (journal : after.journal = middle.journal) (revision : after.revision = middle.revision)
    (floor : after.changeFloor = middle.changeFloor)
    (views : ∀ id, id ∉ todo → after.viewOf id = middle.viewOf id) :
    RecordedExcept valueOf todo before after where
  revision := revision ▸ recorded.revision
  floor := floor ▸ recorded.floor
  kept := by
    rw [journal, floor]
    exact recorded.kept
  noted := by
    intro id outside
    rw [views id outside, journal, floor]
    exact recorded.noted id outside

theorem RecordedExcept.weaken (recorded : RecordedExcept valueOf todo before after)
    {wider : List String} (subset : todo ⊆ wider) : RecordedExcept valueOf wider before after :=
  { recorded with noted := fun id outside => recorded.noted id fun member => outside (subset member) }

variable {id : String}

theorem RecordedExcept.settle (recorded : RecordedExcept valueOf (id :: todo) before after)
    (same : SameContent valueOf (before.viewOf id) (after.viewOf id)) :
    RecordedExcept valueOf todo before after :=
  { recorded with
    noted := by
      intro other outside
      by_cases here : other = id
      · rw [here]
        exact .inl same
      · apply recorded.noted other
        intro member
        rcases List.mem_cons.mp member with equal | later
        · exact here equal
        · exact outside later }

theorem RecordedExcept.bump (recorded : RecordedExcept valueOf (id :: todo) before middle)
    (journaled : Journaled middle) (type : String) (deleted : Bool) :
    RecordedExcept valueOf todo before (middle.bump options id type deleted) := by
  rcases @bump_spec V options middle journaled id type deleted with ⟨_, revision, floor, kept⟩
  have after := @viewOf_bump V options middle id type deleted
  constructor
  case revision =>
    rw [revision]
    exact Nat.le_succ_of_le recorded.revision
  case floor => exact Nat.le_trans recorded.floor floor
  case kept =>
    intro change member above
    apply kept change (.inl ?_) above
    exact recorded.kept change member (Nat.lt_of_le_of_lt floor above)
  case noted =>
    intro other outside
    rw [after]
    by_cases here : other = id
    · subst here
      have later := Nat.lt_succ_of_le recorded.revision
      rcases Nat.lt_or_ge (middle.bump options other type deleted).changeFloor
        (middle.revision + 1) with above | passed
      · exact .inr (.inr ⟨_, kept _ (.inr rfl) above, later, rfl⟩)
      · exact .inr (.inl (Nat.lt_of_lt_of_le later passed))
    · have notTodo : other ∉ id :: todo := by
        intro member
        rcases List.mem_cons.mp member with equal | earlier
        · exact here equal
        · exact outside earlier
      rcases recorded.noted other notTodo with same | passed | ⟨change, member, later, named⟩
      · exact .inl same
      · exact .inr (.inl (Nat.lt_of_lt_of_le passed floor))
      · rcases Nat.lt_or_ge (middle.bump options id type deleted).changeFloor
          change.revision with above | below
        · exact .inr (.inr ⟨change, kept change (.inl member) above, later, named⟩)
        · exact .inr (.inl (Nat.lt_of_lt_of_le later below))

/-- The journal of a state holds what changed since an earlier one, except at `todo`. -/
structure Tracked (valueOf : V → W) (todo : List String) (before after : LiveReplica V) : Prop where
  recorded : RecordedExcept valueOf todo before after
  journaled : Journaled after

theorem Tracked.refl (journaled : Journaled replica) (todo : List String) :
    Tracked valueOf todo replica replica := ⟨RecordedExcept.refl todo replica, journaled⟩

theorem Tracked.quiet (tracked : Tracked valueOf todo before middle)
    (journal : after.journal = middle.journal) (revision : after.revision = middle.revision)
    (floor : after.changeFloor = middle.changeFloor)
    (views : ∀ id, id ∉ todo → after.viewOf id = middle.viewOf id) :
    Tracked valueOf todo before after :=
  ⟨tracked.recorded.quiet journal revision floor views, tracked.journaled.congr journal revision floor⟩

theorem Tracked.bump (tracked : Tracked valueOf (id :: todo) before middle) (type : String)
    (deleted : Bool) :
    Tracked valueOf todo before (middle.bump options id type deleted) :=
  ⟨tracked.recorded.bump tracked.journaled type deleted,
    (bump_spec tracked.journaled id type deleted).1⟩

theorem Tracked.settle (tracked : Tracked valueOf (id :: todo) before after)
    (same : SameContent valueOf (before.viewOf id) (after.viewOf id)) :
    Tracked valueOf todo before after := ⟨tracked.recorded.settle same, tracked.journaled⟩

theorem Tracked.weaken (tracked : Tracked valueOf todo before after) {wider : List String}
    (subset : todo ⊆ wider) : Tracked valueOf wider before after :=
  ⟨tracked.recorded.weaken subset, tracked.journaled⟩

theorem Tracked.trans (first : Tracked valueOf todo before middle)
    (second : Tracked valueOf [] middle after) : Tracked valueOf todo before after :=
  ⟨first.recorded.trans second.recorded, second.journaled⟩

end Recorded

/-! ## Calls -/

def KeyedFields (fields : Fields V) : Prop := (FieldValue.map fields).Keyed

theorem keyedFields_merge (existing incoming : Fields V) (existingKeyed : KeyedFields existing)
    (incomingKeyed : KeyedFields incoming) : KeyedFields (mergeEntries existing incoming) :=
  keyed_mergeEntries existingKeyed incomingKeyed.2

theorem keyedRow_of_about {id : String} {row : Option (Entity V)}
    (about : RowAbout KeyedFields id row) : KeyedRow row :=
  fun entity found => (about entity found).2

section Calls

variable {before middle : LiveReplica V} {todo : List String}

theorem Tracked.resync [DecidableEq V] {id : String}
    (tracked : Tracked valueOf (id :: todo) before middle) (beforeKept : Kept KeyedFields before)
    (kept : Kept KeyedFields middle) :
    Tracked valueOf todo before (middle.resync options id (before.viewOf id)) := by
  have recomposed : Tracked valueOf (id :: todo) before
      (middle.recompose options id (before.viewOf id)) := by
    refine tracked.quiet rfl rfl rfl ?_
    intro other outside
    have different : other ≠ id := fun same => outside (List.mem_cons.mpr (.inl same))
    rw [viewOf_recompose, if_neg different]
  rw [LiveReplica.resync]
  cases report : reported (before.viewOf id) (middle.composed id) (middle.retained options id) with
  | some change => exact recomposed.bump change.1 change.2
  | none =>
      apply recomposed.settle
      unfold reported at report
      cases retained : middle.retained options id with
      | some row =>
          rw [retained] at report
          dsimp only at report
          split at report
          · cases report
          · next unchanged =>
              rw [viewOf_recompose_retained retained]
              apply sameContent_of_unchanged (keyedRow_of_about (beforeKept.viewOf id)) ?_
                (Bool.not_eq_true _ ▸ unchanged)
              exact keyedRow_of_about fun entity found => kept.retained keyedFields_merge id entity
                (retained.trans found)
      | none =>
          rw [retained] at report
          cases composed : middle.composed id with
          | some next =>
              rw [composed] at report
              cases report
          | none =>
              rw [composed] at report
              rw [viewOf_recompose_of_none composed, Option.map_eq_none_iff.mp report]
              trivial

theorem Tracked.resyncAll [DecidableEq V] {ids : List String}
    (tracked : Tracked valueOf ids before middle) (beforeKept : Kept KeyedFields before)
    (kept : Kept KeyedFields middle) :
    Tracked valueOf [] before (resyncAll options before.viewOf ids middle) := by
  induction ids generalizing middle with
  | nil => exact tracked
  | cons id rest induction =>
      exact induction (tracked.resync beforeKept kept)
        (kept.resync keyedFields_merge id (before.viewOf id))

theorem tracked_foldBase {update : Update V} {gsn : Nat} {hlc : HLCTimestamp} {position : Nat}
    (tracked : Tracked valueOf todo before middle) (listed : update.subjectId ∈ todo) :
    Tracked valueOf todo before (middle.foldBase options update gsn hlc position) := by
  rcases @foldBase_eq V options middle update gsn hlc position with
    ⟨entities, typeIndex, orphans, pendingOpens, equal, others⟩
  rw [equal]
  refine tracked.quiet rfl rfl rfl ?_
  intro id outside
  have different : id ≠ update.subjectId := fun same => outside (same ▸ listed)
  exact viewOf_congr rfl (others id different)

theorem tracked_foldl_foldBase {γ : Type} (updateOf : γ → Update V) (gsn : γ → Nat)
    (hlc : γ → HLCTimestamp) (position : γ → Nat) {folds : List γ}
    (tracked : Tracked valueOf todo before middle)
    (listed : ∀ fold ∈ folds, (updateOf fold).subjectId ∈ todo) :
    Tracked valueOf todo before (folds.foldl (fun replica fold =>
      replica.foldBase options (updateOf fold) (gsn fold) (hlc fold) (position fold)) middle) := by
  induction folds generalizing middle with
  | nil => exact tracked
  | cons fold rest induction =>
      exact induction (tracked_foldBase tracked (listed fold List.mem_cons_self))
        fun other member => listed other (List.mem_cons_of_mem _ member)

theorem tracked_ingest [DecidableEq V] (journaled : Journaled replica)
    (kept : Kept KeyedFields replica) {action : Action V} {delta : List (Update V)}
    (brings : ∀ update ∈ delta, KeyedFields (readFields update)) (position : Nat) :
    Tracked valueOf [] replica (replica.ingest options action delta position) := by
  apply Tracked.resyncAll ?_ kept (kept.folded keyedFields_merge action brings position)
  have dropped : Tracked valueOf (replica.touched action delta) replica
      (replica.dropOverlay action.id) := (Tracked.refl journaled _).quiet rfl rfl rfl fun _ _ => rfl
  have listed : ∀ update ∈ delta, update.subjectId ∈ replica.touched action delta := by
    intro update member
    rw [touched, List.mem_eraseDups]
    exact List.mem_append_left _ (List.mem_map.mpr ⟨update, member, rfl⟩)
  have folds : Tracked valueOf (replica.touched action delta) replica
      (delta.foldl (fun replica update =>
        replica.foldBase options update action.gsn action.hlc position)
        (replica.dropOverlay action.id)) :=
    tracked_foldl_foldBase id (fun _ => action.gsn) (fun _ => action.hlc) (fun _ => position)
      dropped listed
  exact folds.quiet rfl rfl rfl fun _ _ => rfl

theorem tracked_optimistic [DecidableEq V] (journaled : Journaled replica)
    (kept : Kept KeyedFields replica) {action : Action V}
    (brings : ∀ update ∈ action.updates, KeyedFields (readFields update)) :
    Tracked valueOf [] replica (replica.optimistic options action) := by
  apply Tracked.resyncAll ?_ kept (kept.overlaid brings)
  exact (Tracked.refl journaled _).quiet rfl rfl rfl fun _ _ => rfl

theorem tracked_discard [DecidableEq V] (journaled : Journaled replica)
    (kept : Kept KeyedFields replica) (actionId : String) :
    Tracked valueOf [] replica (replica.discard options actionId) := by
  apply Tracked.resyncAll ?_ kept (kept.dropOverlay actionId)
  exact (Tracked.refl journaled _).quiet rfl rfl rfl fun _ _ => rfl

/-! ### Residency -/

theorem tracked_cancelOpen (tracked : Tracked valueOf todo before middle) (id : String) :
    Tracked valueOf todo before (middle.cancelOpen id) := by
  rcases @cancelOpen_eq V middle id with ⟨_, _, _, _, equal⟩
  rw [equal]
  exact tracked.quiet rfl rfl rfl fun _ _ => rfl

theorem viewOf_forget (replica : LiveReplica V) (id other : String) :
    (replica.forget options id).viewOf other =
      if other = id then none else replica.viewOf other := by
  rcases @cancelOpen_eq V replica id with ⟨_, _, _, _, equal⟩
  rw [forget, equal, reconcileIndex, viewOf]
  dsimp only
  rw [OrderedMap.get?_erase, OrderedMap.get?_erase]
  by_cases same : other = id
  · simp [same]
  · simp only [same, if_false]
    rfl

section

variable (tracked : Tracked valueOf todo before middle)
include tracked

theorem tracked_evictOne (id : String) :
    Tracked valueOf todo before (middle.evictOne options id) := by
  rcases @cancelOpen_eq V middle id with ⟨_, _, _, _, equal⟩
  have forgotten : Tracked valueOf [id] middle (middle.forget options id) := by
    apply (Tracked.refl tracked.journaled [id]).quiet
    · rw [forget, equal]
      rfl
    · rw [forget, equal]
      rfl
    · rw [forget, equal]
      rfl
    · intro other outside
      rw [viewOf_forget, if_neg fun same => outside (List.mem_singleton.mpr same)]
  apply tracked.trans
  rw [evictOne]
  cases found : (middle.viewOf id).or (middle.entities.get? id) with
  | some row => exact forgotten.bump row.type true
  | none =>
      apply forgotten.settle
      rw [viewOf_forget, if_pos rfl, (Option.or_eq_none_iff.mp found).1]
      trivial

theorem tracked_evict (ids : List String) :
    Tracked valueOf todo before (middle.evict options ids) := by
  rw [evict]
  induction ids.eraseDups generalizing middle with
  | nil => exact tracked
  | cons id rest induction => exact induction (tracked_evictOne tracked id)

theorem tracked_openPin (id : String) :
    Tracked valueOf todo before (middle.openPin options id) := by
  apply tracked_evict
  exact tracked.quiet rfl rfl rfl fun _ _ => rfl

theorem tracked_closePin (id : String) :
    Tracked valueOf todo before (middle.closePin options id) := by
  rw [closePin]
  split
  · exact tracked
  · split
    · exact tracked
    · split
      · exact tracked.quiet rfl rfl rfl fun _ _ => rfl
      · apply tracked_evict
        exact tracked.quiet rfl rfl rfl fun _ _ => rfl

end

theorem tracked_install [DecidableEq V] (tracked : Tracked valueOf [] replica replica)
    (kept : Kept KeyedFields replica) {id : String} {row : Entity V}
    (about : row.id = id ∧ KeyedFields row.fields) {buffered : List (OrphanUpdate V)}
    (waiting : ∀ orphan ∈ buffered, About KeyedFields id orphan.update) :
    Tracked valueOf [] replica (replica.install options id row buffered) := by
  have keyed : ∀ orphan ∈ buffered, KeyedFields (readFields orphan.update) :=
    fun orphan member => (waiting orphan member).2
  apply Tracked.resync ?_ kept
  · apply Kept.foldl_foldBase keyedFields_merge _ OrphanUpdate.update OrphanUpdate.gsn
      OrphanUpdate.hlc OrphanUpdate.position keyed
    apply Kept.openPin
    exact { kept with entities := rowAbout_set kept.entities about }
  · apply tracked_foldl_foldBase OrphanUpdate.update OrphanUpdate.gsn OrphanUpdate.hlc
      OrphanUpdate.position
    · apply tracked_openPin
      refine (tracked.weaken (List.nil_subset [id])).quiet rfl rfl rfl ?_
      intro other outside
      refine viewOf_congr rfl ?_
      exact OrderedMap.get?_set_of_ne _ (fun same => outside (List.mem_singleton.mpr same)) _
    · intro orphan member
      rw [(waiting orphan member).1]
      exact List.mem_singleton.mpr rfl

section

variable (journaled : Journaled replica)
include journaled

theorem tracked_opened [DecidableEq V] (kept : Kept KeyedFields replica) {id : String} {epoch : Nat}
    {loaded : Option (Entity V)} (about : RowAbout KeyedFields id loaded) :
    Tracked valueOf [] replica (replica.opened options id epoch loaded) := by
  have landed : Tracked valueOf [] replica (replica.landed id epoch) :=
    (Tracked.refl journaled []).quiet rfl rfl rfl fun _ _ => rfl
  let drained : LiveReplica V := { replica.landed id epoch with
    pendingOpens := (replica.landed id epoch).pendingOpens.erase id }
  have drainedTracked : Tracked valueOf [] replica drained :=
    (Tracked.refl journaled []).quiet rfl rfl rfl fun _ _ => rfl
  have drainedKept : Kept KeyedFields drained := { kept with
    pendingOpens := fun other pending found => kept.pendingOpens other pending (get?_of_erase found) }
  rw [opened]
  dsimp only
  split
  · exact landed
  · split
    · exact drainedTracked
    · split
      · exact drainedTracked
      · next row _ =>
          have installed : Tracked valueOf [] drained (drained.install options id row
              (((replica.landed id epoch).pendingOpens.get? id).getD [])) := by
            apply tracked_install (Tracked.refl drainedTracked.journaled []) drainedKept
              (about row rfl)
            intro orphan member
            cases found : replica.pendingOpens.get? id with
            | none =>
                have empty : (replica.landed id epoch).pendingOpens.get? id = none := found
                rw [empty] at member
                cases member
            | some pending =>
                have held : (replica.landed id epoch).pendingOpens.get? id = some pending := found
                rw [held] at member
                exact kept.pendingOpens id pending found orphan member
          exact drainedTracked.trans installed

theorem tracked_openRow (id : String) :
    Tracked valueOf [] replica (replica.openRow options id) := by
  rw [openRow]
  split
  · split
    · exact Tracked.refl journaled []
    · exact tracked_openPin (Tracked.refl journaled []) id
  · split
    · exact Tracked.refl journaled []
    · exact (Tracked.refl journaled []).quiet rfl rfl rfl fun _ _ => rfl

theorem tracked_close (id : String) : Tracked valueOf [] replica (replica.close options id) := by
  have cancelled : Tracked valueOf [] replica (replica.cancelOpen id) :=
    tracked_cancelOpen (Tracked.refl journaled []) id
  rw [close]
  split
  · exact cancelled
  · split
    · exact Tracked.refl journaled []
    · dsimp only
      split
      · exact tracked_closePin cancelled id
      · exact tracked_evict cancelled [id]

theorem tracked_load (record : ReplicaRecord V) :
    Tracked valueOf [] replica (replica.load options record) := by
  rw [load]
  split
  · exact Tracked.refl journaled []
  · dsimp only
    have general : ∀ (rows : List (Entity V)) (start : LiveReplica V),
        (rows.foldl (loadRow options) start).journal = start.journal ∧
          (rows.foldl (loadRow options) start).revision = start.revision ∧
          (rows.foldl (loadRow options) start).changeFloor = start.changeFloor := by
      intro rows
      induction rows with
      | nil => exact fun _ => ⟨rfl, rfl, rfl⟩
      | cons row rest induction =>
          intro start
          have one : (loadRow options start row).journal = start.journal ∧
              (loadRow options start row).revision = start.revision ∧
              (loadRow options start row).changeFloor = start.changeFloor := by
            rw [loadRow]
            split
            · exact ⟨rfl, rfl, rfl⟩
            · exact ⟨rfl, rfl, rfl⟩
          have others := induction (loadRow options start row)
          exact ⟨others.1.trans one.1, others.2.1.trans one.2.1, others.2.2.trans one.2.2⟩
    have newer : replica.revision < if record.revision > replica.revision then record.revision
        else replica.revision + 1 := by
      split
      · assumption
      · exact Nat.lt_succ_self _
    rcases general record.entities { (empty : LiveReplica V) with
      nextOpenEpoch := replica.nextOpenEpoch
      reads := replica.reads
      revision := if record.revision > replica.revision then record.revision
        else replica.revision + 1
      changeFloor := if record.revision > replica.revision then record.revision
        else replica.revision + 1
      lastPosition := record.position } with ⟨journal, revision, floor⟩
    constructor
    case journaled =>
      constructor
      case ascending =>
        rw [journal]
        exact List.Pairwise.nil
      case above =>
        rw [journal]
        rintro _ ⟨⟩
      case upTo =>
        rw [journal]
        rintro _ ⟨⟩
      case floor => exact Nat.le_of_eq (floor.trans revision.symm)
    case recorded =>
      constructor
      case revision =>
        rw [revision]
        exact Nat.le_of_lt newer
      case floor =>
        rw [floor]
        exact Nat.le_trans journaled.floor (Nat.le_of_lt newer)
      case kept =>
        intro change member above
        rw [floor] at above
        have upTo := journaled.upTo change member
        exact absurd (Nat.lt_of_lt_of_le newer (Nat.le_of_lt above)) (Nat.not_lt.mpr upTo)
      case noted =>
        intro id _
        rw [floor]
        exact .inr (.inl newer)

theorem tracked_step [DecidableEq V] {event : Event V} {next : LiveReplica V}
    (kept : Kept KeyedFields replica) (brings : event.Brings KeyedFields)
    (stepped : replica.step options event = some next) :
    Tracked valueOf [] replica next := by
  cases event with
  | ingest action delta position =>
      cases stepped
      exact tracked_ingest journaled kept brings position
  | optimistic action =>
      cases stepped
      exact tracked_optimistic journaled kept brings
  | discard actionId =>
      cases stepped
      exact tracked_discard journaled kept actionId
  | evict ids =>
      cases stepped
      exact tracked_evict (Tracked.refl journaled []) ids
  | load record =>
      cases stepped
      exact tracked_load journaled record
  | openRow id =>
      cases stepped
      exact tracked_openRow journaled id
  | opened id epoch loaded =>
      rw [step] at stepped
      split at stepped
      · cases stepped
        exact tracked_opened journaled kept brings
      · cases stepped
  | readFailed id epoch =>
      rw [step] at stepped
      split at stepped
      · cases stepped
        exact (Tracked.refl journaled []).quiet rfl rfl rfl fun _ _ => rfl
      · cases stepped
  | close id =>
      cases stepped
      exact tracked_close journaled id
  | release id =>
      rw [step] at stepped
      split at stepped
      · cases stepped
        exact tracked_evict (Tracked.refl journaled []) [id]
      · cases stepped

end

end Calls

/-! ## Calls that change no content -/

def prepared (options : ReplicaOptions V) (replica : LiveReplica V) :
    Event V → Option (List String × LiveReplica V)
  | .ingest action delta position =>
      some (replica.touched action delta, replica.folded options action delta position)
  | .optimistic action =>
      some ((action.updates.map Update.subjectId).eraseDups, replica.overlaid action)
  | .discard actionId => some (replica.overlaidBy actionId, replica.dropOverlay actionId)
  | _ => none

variable {event : Event V} {ids : List String}

section

variable {middle : LiveReplica V} (call : replica.prepared options event = some (ids, middle))
include call

theorem step_eq_resyncAll [DecidableEq V] :
    replica.step options event = some (resyncAll options replica.viewOf ids middle) := by
  cases event <;> cases call <;> rfl

theorem nodup_of_prepared : ids.Nodup := by
  cases event with
  | ingest action delta position =>
      cases call
      exact nodup_eraseDups _
  | optimistic action =>
      cases call
      exact nodup_eraseDups _
  | discard actionId =>
      cases call
      exact replica.overlay.nodup.filter _
  | _ => cases call

theorem prepared_eq :
    ∃ entities typeIndex overlay orphans pendingOpens lastPosition, middle = { replica with
      entities, typeIndex, overlay, orphans, pendingOpens, lastPosition } := by
  cases event with
  | ingest action delta position =>
      cases call
      have general : ∀ (delta : List (Update V)) (start : LiveReplica V),
          ∃ entities typeIndex orphans pendingOpens, delta.foldl (fun replica update =>
            replica.foldBase options update action.gsn action.hlc position) start =
              { start with entities, typeIndex, orphans, pendingOpens } := by
        intro delta
        induction delta with
        | nil => exact fun _ => ⟨_, _, _, _, rfl⟩
        | cons update rest induction =>
            intro start
            rcases @foldBase_eq V options start update action.gsn action.hlc position with
              ⟨_, _, _, _, equal, _⟩
            rcases induction (start.foldBase options update action.gsn action.hlc position) with
              ⟨_, _, _, _, folded⟩
            rw [List.foldl_cons, folded, equal]
            exact ⟨_, _, _, _, rfl⟩
      rcases general delta (replica.dropOverlay action.id) with ⟨_, _, _, _, folded⟩
      rw [LiveReplica.folded, folded]
      exact ⟨_, _, _, _, _, _, rfl⟩
  | optimistic action =>
      cases call
      exact ⟨_, _, _, _, _, _, rfl⟩
  | discard actionId =>
      cases call
      exact ⟨_, _, _, _, _, _, rfl⟩
  | _ => cases call

end

theorem kept_of_prepared {P : Fields V → Prop} {middle : LiveReplica V}
    (closed : ∀ existing incoming, P existing → P incoming → P (mergeEntries existing incoming))
    (kept : Kept P replica) (brings : event.Brings P)
    (call : replica.prepared options event = some (ids, middle)) : Kept P middle := by
  cases event with
  | ingest action delta position =>
      cases call
      exact kept.folded closed action brings position
  | optimistic action =>
      cases call
      exact kept.overlaid brings
  | discard actionId =>
      cases call
      exact kept.dropOverlay actionId
  | _ => cases call

theorem viewOf_of_prepared {middle : LiveReplica V}
    (call : replica.prepared options event = some (ids, middle)) {id : String}
    (untouched : id ∉ ids) : middle.viewOf id = replica.viewOf id := by
  cases event with
  | ingest action delta position =>
      cases call
      have general : ∀ (delta : List (Update V)) (start : LiveReplica V),
          (∀ update ∈ delta, id ≠ update.subjectId) →
          (delta.foldl (fun replica update =>
            replica.foldBase options update action.gsn action.hlc position) start).viewOf id =
            start.viewOf id := by
        intro delta
        induction delta with
        | nil => exact fun _ _ => rfl
        | cons update rest induction =>
            intro start outside
            rw [List.foldl_cons,
              induction _ fun other member => outside other (List.mem_cons_of_mem _ member)]
            exact viewOf_foldBase_of_ne (outside update List.mem_cons_self) _ _ _
      apply general delta (replica.dropOverlay action.id)
      rintro update member rfl
      apply untouched
      rw [touched, List.mem_eraseDups]
      exact List.mem_append_left _ (List.mem_map.mpr ⟨update, member, rfl⟩)
  | optimistic action =>
      cases call
      rfl
  | discard actionId =>
      cases call
      rfl
  | _ => cases call

theorem viewOf_step_of_notMem [DecidableEq V] {event : Event V} {ids : List String}
    {middle next : LiveReplica V} (call : replica.prepared options event = some (ids, middle))
    (stepped : replica.step options event = some next) {id : String} (untouched : id ∉ ids) :
    next.viewOf id = replica.viewOf id := by
  rw [step_eq_resyncAll call] at stepped
  cases stepped
  rw [viewOf_resyncAll_of_notMem untouched, viewOf_of_prepared call untouched]

/-- A composed row may stay, or the writes over it hide a view that was there. -/
def Visible (options : ReplicaOptions V) (replica : LiveReplica V) (id : String)
    (previous : Option (Entity V)) : Prop :=
  ∀ row, replica.composed id = some row → replica.resident options row = true ∨
    previous ≠ none ∧ (replica.overlay.get? id).getD [] ≠ []

/-- A call that recomposes no row that is neither held nor pinned, where no view was. -/
def VisibleCall (options : ReplicaOptions V) (replica : LiveReplica V) (event : Event V) : Prop :=
  ∃ ids middle, replica.prepared options event = some (ids, middle) ∧
    ∀ id ∈ ids, middle.Visible options id (replica.viewOf id)

/-- The records that a replica holds and that a call brings to it. -/
inductive Source (replica : LiveReplica V) (call : Event V) : Fields V → Prop where
  | row {id row} (found : replica.entities.get? id = some row) : Source replica call row.fields
  | view {id row} (found : replica.effective.get? id = some (some row)) :
      Source replica call row.fields
  | write {id writes write} (found : replica.overlay.get? id = some writes)
      (member : write ∈ writes) : Source replica call (readFields write.update)
  | orphan {id pending orphan} (found : replica.orphans.get? id = some pending)
      (member : orphan ∈ pending) : Source replica call (readFields orphan.update)
  | pendingOpen {id pending orphan} (found : replica.pendingOpens.get? id = some pending)
      (member : orphan ∈ pending) : Source replica call (readFields orphan.update)
  | ingested {action delta position update} (brings : call = .ingest action delta position)
      (member : update ∈ delta) : Source replica call (readFields update)
  | written {action update} (brings : call = .optimistic action)
      (member : update ∈ action.updates) : Source replica call (readFields update)

/-- Each key stands once, and every leaf object is one of the given records'. -/
def FieldsFrom (sources : Fields V → Prop) (fields : Fields V) : Prop :=
  KeyedFields fields ∧ ∀ path leaf, (FieldValue.map fields).at path = some (.leaf leaf) →
    ∃ source, sources source ∧ (FieldValue.map source).at path = some (.leaf leaf)

/-- Where a view that the call recomposes shows a leaf object, no other object with its
value and its stamps is held or brought for the same path. -/
def KnownLeaves (valueOf : V → W) (options : ReplicaOptions V) (replica : LiveReplica V)
    (call : Event V) : Prop :=
  ∀ ids middle, replica.prepared options call = some (ids, middle) → ∀ id ∈ ids,
    ∀ row ∈ replica.viewOf id, ∀ source, Source replica call source → ∀ path first second,
      (FieldValue.map row.fields).at path = some (.leaf first) →
        (FieldValue.map source).at path = some (.leaf second) →
          FieldNode.held valueOf (.leaf first) = FieldNode.held valueOf (.leaf second) →
            first = second

section Settled

variable {sources : Fields V → Prop} {middle : LiveReplica V}

theorem fieldsFrom_source {fields : Fields V} (keyed : KeyedFields fields)
    (listed : sources fields) : FieldsFrom sources fields :=
  ⟨keyed, fun _ _ found => ⟨fields, listed, found⟩⟩

theorem fieldsFrom_merge (existing incoming : Fields V) (left : FieldsFrom sources existing)
    (right : FieldsFrom sources incoming) : FieldsFrom sources (mergeEntries existing incoming) := by
  refine ⟨keyedFields_merge existing incoming left.1 right.1, fun path leaf found => ?_⟩
  rcases leaf_of_mergeEntries right.1 found with kept | written
  · exact left.2 path leaf kept
  · exact right.2 path leaf written

theorem kept_sources {call : Event V} (kept : Kept KeyedFields replica) :
    Kept (FieldsFrom (Source replica call)) replica where
  entities := fun id row found =>
    let about := kept.entities id row found
    ⟨about.1, fieldsFrom_source about.2 (.row found)⟩
  effective := by
    rintro id view found row rfl
    have about := kept.effective id _ found row rfl
    exact ⟨about.1, fieldsFrom_source about.2 (.view found)⟩
  overlay := fun id writes found write member =>
    let about := kept.overlay id writes found write member
    ⟨about.1, fieldsFrom_source about.2 (.write found member)⟩
  orphans := fun id pending found orphan member =>
    let about := kept.orphans id pending found orphan member
    ⟨about.1, fieldsFrom_source about.2 (.orphan found member)⟩
  pendingOpens := fun id pending found orphan member =>
    let about := kept.pendingOpens id pending found orphan member
    ⟨about.1, fieldsFrom_source about.2 (.pendingOpen found member)⟩

theorem brings_sources {call : Event V} {ids : List String} (keyed : call.Brings KeyedFields)
    (prepares : replica.prepared options call = some (ids, middle)) :
    call.Brings (FieldsFrom (Source replica call)) := by
  cases call with
  | ingest action delta position =>
      exact fun update member => fieldsFrom_source (keyed update member) (.ingested rfl member)
  | optimistic action =>
      exact fun update member => fieldsFrom_source (keyed update member) (.written rfl member)
  | discard _ => trivial
  | _ => cases prepares

variable [DecidableEq V]

theorem revision_resync (kept : Kept (FieldsFrom sources) middle) {id : String}
    {previous : Option (Entity V)} (keyed : KeyedRow previous)
    (known : ∀ row ∈ previous, ∀ source, sources source → ∀ path first second,
      (FieldValue.map row.fields).at path = some (.leaf first) →
        (FieldValue.map source).at path = some (.leaf second) →
          FieldNode.held valueOf (.leaf first) = FieldNode.held valueOf (.leaf second) →
            first = second)
    (visible : middle.Visible options id previous) :
    (middle.resync options id previous).revision = middle.revision ∨
      ¬ SameContent valueOf previous ((middle.resync options id previous).viewOf id) := by
  rw [viewOf_resync]
  cases report : reported previous (middle.composed id) (middle.retained options id) with
  | none =>
      left
      rw [resync, report]
      rfl
  | some change =>
      right
      intro same
      unfold reported at report
      cases retained : middle.retained options id with
      | some row =>
          have rowAbout := kept.retained fieldsFrom_merge id row retained
          rw [viewOf_recompose_retained retained] at same
          have unchanged : contentChanged previous (some row) = false := by
            apply unchanged_of_sameContent keyed
              (fun entity found => Option.some.inj found ▸ rowAbout.2.1) _ same
            rintro entity shown other found path first second here there
            cases found
            rcases rowAbout.2.2 path second there with ⟨source, listed, held⟩
            exact known entity shown source listed path first second here held
          rw [retained] at report
          dsimp only at report
          rw [unchanged] at report
          cases report
      | none =>
          cases composed : middle.composed id with
          | some next =>
              rcases visible next composed with stays | ⟨seen, written⟩
              · rw [LiveReplica.retained, composed, Option.filter_some, if_pos stays] at retained
                cases retained
              · rw [viewOf_recompose_hidden retained written] at same
                cases previous with
                | none => exact seen rfl
                | some row => exact same
          | none =>
              rw [retained, composed] at report
              rw [viewOf_recompose_of_none composed] at same
              cases previous with
              | none => cases report
              | some row => exact same

omit [DecidableEq V] in
theorem composed_congr {left right : LiveReplica V} (entities : left.entities = right.entities)
    (overlay : left.overlay = right.overlay) (id : String) :
    left.composed id = right.composed id := by
  rw [composed, composed, entities, overlay]

theorem visible_resync (kept : Kept (FieldsFrom sources) middle) {id other : String}
    (different : other ≠ id) (before previous : Option (Entity V))
    (visible : middle.Visible options other previous) :
    (middle.resync options id before).Visible options other previous := by
  have frame := @resync_frame V options _ middle id before
  intro row found
  rw [composed_congr frame.1 frame.2.1] at found
  have named := (kept.composed fieldsFrom_merge other row found).1
  rcases visible row found with stays | hidden
  · left
    rw [resident, named, frame.2.2.2 other different, ← named]
    exact stays
  · right
    rw [frame.2.1]
    exact hidden

theorem revision_resyncAll {ids : List String} (nodup : ids.Nodup)
    (kept : Kept (FieldsFrom sources) middle) {before : String → Option (Entity V)}
    (keyed : ∀ id, KeyedRow (before id))
    (known : ∀ id ∈ ids, ∀ row ∈ before id, ∀ source, sources source → ∀ path first second,
      (FieldValue.map row.fields).at path = some (.leaf first) →
        (FieldValue.map source).at path = some (.leaf second) →
          FieldNode.held valueOf (.leaf first) = FieldNode.held valueOf (.leaf second) →
            first = second)
    (visible : ∀ id ∈ ids, middle.Visible options id (before id)) :
    (resyncAll options before ids middle).revision = middle.revision ∨
      ∃ id ∈ ids, ¬ SameContent valueOf (before id)
        ((resyncAll options before ids middle).viewOf id) := by
  induction ids generalizing middle with
  | nil => exact .inl rfl
  | cons id rest induction =>
      have parts := List.nodup_cons.mp nodup
      have untouched : (resyncAll options before (id :: rest) middle).viewOf id =
          (middle.resync options id (before id)).viewOf id :=
        viewOf_resyncAll_of_notMem parts.1
      have others := induction parts.2 (kept.resync fieldsFrom_merge id (before id))
        (fun other member => known other (List.mem_cons_of_mem _ member))
        fun other member => by
          have different : other ≠ id := by
            rintro rfl
            exact parts.1 member
          exact visible_resync kept different _ _ (visible other (List.mem_cons_of_mem _ member))
      rcases revision_resync kept (keyed id) (known id List.mem_cons_self)
          (visible id List.mem_cons_self) with
        quiet | changed
      · rcases others with rest | ⟨other, member, changed⟩
        · exact .inl (rest.trans quiet)
        · exact .inr ⟨other, List.mem_cons_of_mem _ member, changed⟩
      · right
        refine ⟨id, List.mem_cons_self, ?_⟩
        rw [untouched]
        exact changed

end Settled

/-! ## Runs -/

/-- What `changesSince` at the later state answers for the revision of the earlier one
names every id whose view has other content. -/
def Complete (valueOf : V → W) (earlier later : LiveReplica V) : Prop :=
  later.changeFloor ≤ earlier.revision →
    ∀ id, ¬ SameContent valueOf (earlier.viewOf id) (later.viewOf id) →
      ∃ change ∈ later.changesSince earlier.revision, change.id = id

/-- The revision advances only with the content of a view. -/
def Settled (valueOf : V → W) (before after : LiveReplica V) : Prop :=
  (∀ id, SameContent valueOf (before.viewOf id) (after.viewOf id)) → after.revision = before.revision

theorem RecordedExcept.complete {earlier later : LiveReplica V}
    (recorded : RecordedExcept valueOf [] earlier later) : Complete valueOf earlier later := by
  intro retained id differs
  rcases recorded.noted id List.not_mem_nil with same | passed | ⟨change, member, newer, named⟩
  · exact absurd same differs
  · exact absurd passed (Nat.not_lt.mpr retained)
  · refine ⟨change, ?_, named⟩
    rw [changesSince, if_neg (Nat.not_lt.mpr retained), List.mem_filter]
    exact ⟨member, decide_eq_true newer⟩

variable [DecidableEq V]

theorem kept_run {P : Fields V → Prop}
    (closed : ∀ existing incoming, P existing → P incoming → P (mergeEntries existing incoming))
    {events : List (Event V)} {final : LiveReplica V} (kept : Kept P replica)
    (brings : ∀ event ∈ events, event.Brings P)
    (ran : (machine options).run replica events = some final) : Kept P final := by
  induction events generalizing replica with
  | nil => exact Option.some.inj ran ▸ kept
  | cons event rest induction =>
      rcases Machine.run_cons.mp ran with ⟨next, stepped, remaining⟩
      exact induction (kept_step closed kept (brings event List.mem_cons_self) stepped)
        (fun other member => brings other (List.mem_cons_of_mem _ member)) remaining

theorem tracked_run {events : List (Event V)} {final : LiveReplica V}
    (journaled : Journaled replica) (kept : Kept KeyedFields replica)
    (brings : ∀ event ∈ events, event.Brings KeyedFields)
    (ran : (machine options).run replica events = some final) :
      Tracked valueOf [] replica final := by
  induction events generalizing replica with
  | nil =>
      cases ran
      exact Tracked.refl journaled []
  | cons event rest induction =>
      rcases Machine.run_cons.mp ran with ⟨next, stepped, remaining⟩
      have here := brings event List.mem_cons_self
      have one : Tracked valueOf [] replica next := tracked_step journaled kept here stepped
      exact one.trans (induction one.journaled (kept_step keyedFields_merge kept here stepped)
        (fun other member => brings other (List.mem_cons_of_mem _ member)) remaining)

def holdsAllBut (cold : String) : ReplicaOptions Nat where
  holds := fun type => type != cold
  journalCapacity := some 1024
  pinnedCapacity := some 64
  pinnedTtl := true
  readEntity := true
  asString := fun _ => none
  journalPositive := journalPositive_default
  pinnedPositive := pinnedPositive_default

/-- An Action that puts one row with one leaf, which is the given object. -/
def putTitle (type : String) (title : Nat) : Action Nat where
  id := "act_1"
  actorId := "usr_1"
  hlc := 10
  gsn := 1
  updates := [{
    id := "upd_1"
    subjectId := "row_1"
    subjectType := type
    method := .put
    data := some [("title", .leaf { value := title, updateId := "upd_1", hlc := some 10 })] }]

theorem brings_putTitle (type : String) (title : Nat) :
    ∀ update ∈ (putTitle type title).updates, KeyedFields (readFields update) := by
  intro update member
  rw [putTitle, List.mem_singleton] at member
  rw [member]
  simp [KeyedFields, readFields, fieldsKeyed, FieldValue.Keyed]

/-- The empty replica after an optimistic put. -/
def shown (title : Nat) : LiveReplica Nat :=
  LiveReplica.empty.optimistic (holdsAllBut "cold") (putTitle "todo" title)

def Event.IsWrite : Event V → Prop
  | .ingest .. => True
  | .optimistic _ => True
  | .discard _ => True
  | _ => False

/-- The journal answers for every retained moment of every run, and no write that leaves
the content of every view advances the revision. -/
def JournalFaithful (options : ReplicaOptions V) (valueOf : V → W) : Prop :=
  ∀ (events rest : List (Event V)) (earlier later : LiveReplica V),
    (machine options).run .empty events = some earlier →
    (machine options).run earlier rest = some later →
    (∀ event ∈ events ++ rest, event.Brings KeyedFields) →
    Complete valueOf earlier later ∧
      ∀ call next, call.IsWrite → call.Brings KeyedFields →
        later.step options call = some next → Settled valueOf later next

theorem sameValues_title (left right : Nat) : SameValues (fun _ : Nat => ())
    [("title", .leaf { value := left, updateId := "upd_1", hlc := some 10 })]
    [("title", .leaf { value := right, updateId := "upd_1", hlc := some 10 })] := by
  intro path
  cases path with
  | nil => rfl
  | cons key path =>
      rw [at_map_cons, at_map_cons]
      by_cases same : key = "title"
      · rw [same]
        cases path with
        | nil => rfl
        | cons _ _ => rfl
      · simp [lookup_cons_eq, same, nodeAt]

end Ebb.Storage.LiveReplica
