import Ebb.Storage.LiveReplica

namespace Ebb.Storage.LiveReplica

/-! What each operation of the replica leaves alone, and the views it leaves behind. -/

variable {options : ReplicaOptions V} {replica : LiveReplica V}

/-! ## Frames -/

theorem bump_eq (replica : LiveReplica V) (id type : String) (deleted : Bool) :
    ∃ journal changeFloor, replica.bump options id type deleted =
      { replica with revision := replica.revision + 1, journal, changeFloor } := by
  rw [bump, trimJournal]
  split
  · exact ⟨_, _, rfl⟩
  · dsimp only
    split
    · exact ⟨_, _, rfl⟩
    · exact ⟨_, _, rfl⟩

theorem replayOrphans_eq (replica : LiveReplica V) (id : String) (gsn : Nat) (next : Entity V) :
    ∃ entities typeIndex orphans, replica.replayOrphans id gsn next =
        { replica with entities, typeIndex, orphans } ∧
      ∀ other, other ≠ id → entities.get? other = replica.entities.get? other := by
  rw [replayOrphans]
  split
  · exact ⟨_, _, _, rfl, fun _ _ => rfl⟩
  · exact ⟨_, _, _, rfl, fun other different => OrderedMap.get?_set_of_ne _ different _⟩

theorem foldBase_eq (replica : LiveReplica V) (update : Update V) (gsn : Nat)
    (hlc : HLCTimestamp) (position : Nat) :
    ∃ entities typeIndex orphans pendingOpens,
      replica.foldBase options update gsn hlc position =
        { replica with entities, typeIndex, orphans, pendingOpens } ∧
      ∀ other, other ≠ update.subjectId → entities.get? other = replica.entities.get? other := by
  rw [foldBase]
  dsimp only
  split
  · exact ⟨_, _, _, _, rfl, fun _ _ => rfl⟩
  · split
    · split
      · exact ⟨_, _, _, _, rfl, fun _ _ => rfl⟩
      · exact ⟨_, _, _, _, rfl, fun _ _ => rfl⟩
    · split
      · refine ⟨_, _, _, _, rfl, fun other different => ?_⟩
        rw [OrderedMap.get?_erase, if_neg different]
      · split
        · next next _ _ _ =>
            rcases replayOrphans_eq { replica with
              entities := replica.entities.set update.subjectId next
              typeIndex := retype replica.typeIndex (replica.entities.get? update.subjectId) next
                update.subjectId } update.subjectId gsn next with
              ⟨entities, typeIndex, orphans, equal, others⟩
            refine ⟨_, _, _, _, equal, fun other different => ?_⟩
            rw [others other different]
            exact OrderedMap.get?_set_of_ne _ different _
        · exact ⟨_, _, _, _, rfl, fun other different => OrderedMap.get?_set_of_ne _ different _⟩

theorem cancelOpen_eq (replica : LiveReplica V) (id : String) :
    ∃ inFlightOpens pendingOpens nextOpenEpoch openEpochs, replica.cancelOpen id =
        { replica with inFlightOpens, pendingOpens, nextOpenEpoch, openEpochs } := by
  rw [cancelOpen]
  split
  · exact ⟨_, _, _, _, rfl⟩
  · exact ⟨_, _, _, _, rfl⟩

variable {id : String}

/-! ## Views -/

theorem viewOf_congr {left right : LiveReplica V}
    (effective : left.effective.get? id = right.effective.get? id)
    (entities : left.entities.get? id = right.entities.get? id) :
    left.viewOf id = right.viewOf id := by
  rw [viewOf, viewOf, effective, entities]

theorem viewOf_bump (replica : LiveReplica V) (id type : String) (deleted : Bool)
    (other : String) : (replica.bump options id type deleted).viewOf other =
      replica.viewOf other := by
  rcases @bump_eq V options replica id type deleted with ⟨journal, changeFloor, equal⟩
  rw [equal]
  rfl

theorem viewOf_foldBase_of_ne {update : Update V} {other : String}
    (different : other ≠ update.subjectId) (gsn : Nat) (hlc : HLCTimestamp) (position : Nat) :
    (replica.foldBase options update gsn hlc position).viewOf other = replica.viewOf other := by
  rcases @foldBase_eq V options replica update gsn hlc position with
    ⟨entities, typeIndex, orphans, pendingOpens, equal, others⟩
  rw [equal]
  exact viewOf_congr rfl (others other different)

theorem viewOf_recompose (replica : LiveReplica V) (id : String) (previous : Option (Entity V))
    (other : String) :
    (replica.recompose options id previous).viewOf other =
      if other = id then
        if (replica.overlay.get? id).getD [] = [] then replica.entities.get? id
        else replica.retained options id
      else replica.viewOf other := by
  rw [recompose, reconcileIndex, viewOf]
  dsimp only
  by_cases same : other = id
  · subst same
    by_cases bare : (replica.overlay.get? other).getD [] = []
    · simp only [bare, if_true, OrderedMap.get?_erase]
    · simp only [bare, if_true, if_false, OrderedMap.get?_set_self]
  · rw [if_neg same, viewOf]
    split
    · next bare =>
        split at bare
        · rw [OrderedMap.get?_erase, if_neg same] at bare
          rw [bare]
        · rw [OrderedMap.get?_set_of_ne _ same] at bare
          rw [bare]
    · next bare =>
        split at bare
        · rw [OrderedMap.get?_erase, if_neg same] at bare
          rw [bare]
        · rw [OrderedMap.get?_set_of_ne _ same] at bare
          rw [bare]

theorem composed_of_bare (replica : LiveReplica V) (bare : (replica.overlay.get? id).getD [] = []) :
    replica.composed id = replica.entities.get? id := by
  rw [composed, bare]
  rfl

theorem viewOf_recompose_retained {row : Entity V} (kept : replica.retained options id = some row)
    (previous : Option (Entity V)) :
    (replica.recompose options id previous).viewOf id = some row := by
  rw [viewOf_recompose, if_pos rfl]
  split
  · next bare =>
      rw [← composed_of_bare replica bare]
      exact (Option.filter_eq_some_iff.mp kept).1
  · exact kept

theorem viewOf_recompose_of_none (absent : replica.composed id = none)
    (previous : Option (Entity V)) : (replica.recompose options id previous).viewOf id = none := by
  rw [viewOf_recompose, if_pos rfl]
  split
  · next bare => rw [← composed_of_bare replica bare, absent]
  · rw [retained, absent]
    rfl

theorem viewOf_recompose_hidden (dropped : replica.retained options id = none)
    (written : (replica.overlay.get? id).getD [] ≠ []) (previous : Option (Entity V)) :
    (replica.recompose options id previous).viewOf id = none := by
  rw [viewOf_recompose, if_pos rfl, if_neg written, dropped]

section Resync

variable [DecidableEq V]

theorem resync_eq (replica : LiveReplica V) (id : String) (previous : Option (Entity V)) :
    replica.resync options id previous = replica.recompose options id previous ∨
      ∃ type deleted, replica.resync options id previous =
        (replica.recompose options id previous).bump options id type deleted := by
  rw [resync]
  split
  · exact .inr ⟨_, _, rfl⟩
  · exact .inl rfl

theorem viewOf_resync (replica : LiveReplica V) (id : String) (previous : Option (Entity V))
    (other : String) : (replica.resync options id previous).viewOf other =
      (replica.recompose options id previous).viewOf other := by
  rcases @resync_eq V options _ replica id previous with equal | ⟨type, deleted, equal⟩
  · rw [equal]
  · rw [equal, viewOf_bump]

theorem viewOf_resync_of_ne {id other : String} (different : other ≠ id)
    (previous : Option (Entity V)) :
    (replica.resync options id previous).viewOf other = replica.viewOf other := by
  rw [viewOf_resync, viewOf_recompose, if_neg different]

theorem viewOf_resyncAll_of_notMem {before : String → Option (Entity V)} {ids : List String}
    {other : String} (untouched : other ∉ ids) :
    (resyncAll options before ids replica).viewOf other = replica.viewOf other := by
  induction ids generalizing replica with
  | nil => rfl
  | cons id rest induction =>
      rw [List.mem_cons, not_or] at untouched
      rw [resyncAll, List.foldl_cons]
      exact (induction untouched.2).trans (viewOf_resync_of_ne untouched.1 _)

theorem resync_frame (replica : LiveReplica V) (id : String) (previous : Option (Entity V)) :
    (replica.resync options id previous).entities = replica.entities ∧
      (replica.resync options id previous).overlay = replica.overlay ∧
      (replica.resync options id previous).typeIndex = replica.typeIndex ∧
      ∀ other, other ≠ id →
        (replica.resync options id previous).pins.get? other = replica.pins.get? other := by
  have recomposed : (replica.recompose options id previous).entities = replica.entities ∧
      (replica.recompose options id previous).overlay = replica.overlay ∧
      (replica.recompose options id previous).typeIndex = replica.typeIndex ∧
      ∀ other, other ≠ id →
        (replica.recompose options id previous).pins.get? other = replica.pins.get? other := by
    refine ⟨rfl, rfl, rfl, fun other different => ?_⟩
    rw [recompose, reconcileIndex]
    dsimp only
    split
    · rw [OrderedMap.get?_erase, if_neg different]
    · rfl
  rcases @resync_eq V options _ replica id previous with equal | ⟨type, deleted, equal⟩
  · rw [equal]
    exact recomposed
  · rcases @bump_eq V options (replica.recompose options id previous) id type deleted with
      ⟨journal, changeFloor, bumped⟩
    rw [equal, bumped]
    exact recomposed

end Resync

/-! ## Rows under their ids

Whatever the replica keeps under an id is about that id, and its fields meet what the
fields of every input meet. -/

/-- An Update of an id whose fields meet a condition. -/
def About (P : Fields V → Prop) (id : String) (update : Update V) : Prop :=
  update.subjectId = id ∧ P (readFields update)

def RowAbout (P : Fields V → Prop) (id : String) (row : Option (Entity V)) : Prop :=
  ∀ entity ∈ row, entity.id = id ∧ P entity.fields

structure Kept (P : Fields V → Prop) (replica : LiveReplica V) : Prop where
  entities : ∀ id, RowAbout P id (replica.entities.get? id)
  effective : ∀ id view, replica.effective.get? id = some view → RowAbout P id view
  overlay : ∀ id writes, replica.overlay.get? id = some writes →
    ∀ write ∈ writes, About P id write.update
  orphans : ∀ id pending, replica.orphans.get? id = some pending →
    ∀ orphan ∈ pending, About P id orphan.update
  pendingOpens : ∀ id pending, replica.pendingOpens.get? id = some pending →
    ∀ orphan ∈ pending, About P id orphan.update

section Kept

variable {P : Fields V → Prop}

theorem Kept.mono {left right : LiveReplica V} (kept : Kept P left)
    (entities : ∀ id row, right.entities.get? id = some row → left.entities.get? id = some row)
    (effective : ∀ id row, right.effective.get? id = some row → left.effective.get? id = some row)
    (overlay : ∀ id row, right.overlay.get? id = some row → left.overlay.get? id = some row)
    (orphans : ∀ id row, right.orphans.get? id = some row → left.orphans.get? id = some row)
    (pendingOpens : ∀ id row, right.pendingOpens.get? id = some row →
      left.pendingOpens.get? id = some row) : Kept P right where
  entities := fun id row found => kept.entities id row (entities id row found)
  effective := fun id view found => kept.effective id view (effective id view found)
  overlay := fun id writes found => kept.overlay id writes (overlay id writes found)
  orphans := fun id pending found => kept.orphans id pending (orphans id pending found)
  pendingOpens := fun id pending found =>
    kept.pendingOpens id pending (pendingOpens id pending found)

theorem get?_of_erase {α : Type} {map : OrderedMap String α} {key other : String} {value : α}
    (found : (map.erase key).get? other = some value) : map.get? other = some value := by
  rw [OrderedMap.get?_erase] at found
  split at found
  · cases found
  · exact found

theorem kept_empty : Kept P (empty : LiveReplica V) where
  entities := nofun
  effective := nofun
  overlay := nofun
  orphans := nofun
  pendingOpens := nofun

theorem Kept.viewOf (kept : Kept P replica) (id : String) : RowAbout P id (replica.viewOf id) := by
  rw [LiveReplica.viewOf]
  cases found : replica.effective.get? id with
  | none => exact kept.entities id
  | some view => exact kept.effective id view found

theorem Kept.bump (kept : Kept P replica) (id type : String) (deleted : Bool) :
    Kept P (replica.bump options id type deleted) := by
  rcases @bump_eq V options replica id type deleted with ⟨journal, changeFloor, equal⟩
  rw [equal]
  exact kept.mono (fun _ _ found => found) (fun _ _ found => found) (fun _ _ found => found)
    (fun _ _ found => found) (fun _ _ found => found)

variable (closed : ∀ existing incoming, P existing → P incoming → P (mergeEntries existing incoming))

include closed

theorem rowAbout_applyUpdate {id : String} {row : Option (Entity V)} {update : Update V}
    (rowAbout : RowAbout P id row) (about : About P id update) (gsn : Nat) (hlc : HLCTimestamp) :
    RowAbout P id (applyUpdate row update gsn hlc) := by
  intro entity found
  unfold applyUpdate at found
  split at found
  · cases found
    exact about
  · cases found
  · next existing _ =>
      have parts := rowAbout existing rfl
      split at found
      · cases found
        exact parts
      · cases found
        exact ⟨parts.1, closed _ _ parts.2 about.2⟩
  · cases found
  · next existing _ =>
      cases found
      exact rowAbout existing rfl

theorem Kept.composed (kept : Kept P replica) (id : String) :
    RowAbout P id (replica.composed id) := by
  have general : ∀ (writes : List (OptimisticWrite V)) (row : Option (Entity V)),
      RowAbout P id row → (∀ write ∈ writes, About P id write.update) →
        RowAbout P id (writes.foldl
          (fun row write => applyUpdate row write.update 0 write.hlc) row) := by
    intro writes
    induction writes with
    | nil => exact fun _ rowAbout _ => rowAbout
    | cons write rest induction =>
        intro row rowAbout about
        apply induction
        · exact rowAbout_applyUpdate closed rowAbout (about write List.mem_cons_self) _ _
        · exact fun other member => about other (List.mem_cons_of_mem _ member)
  apply general _ _ (kept.entities id)
  intro write member
  cases found : replica.overlay.get? id with
  | none =>
      rw [found] at member
      cases member
  | some writes =>
      rw [found] at member
      exact kept.overlay id writes found write member

theorem Kept.retained (kept : Kept P replica) (id : String) :
    RowAbout P id (replica.retained options id) := by
  intro row found
  exact kept.composed closed id row (Option.filter_eq_some_iff.mp found).1

theorem Kept.recompose (kept : Kept P replica) (id : String) (previous : Option (Entity V)) :
    Kept P (replica.recompose options id previous) where
  entities := kept.entities
  overlay := kept.overlay
  orphans := kept.orphans
  pendingOpens := kept.pendingOpens
  effective := by
    intro other view found
    rw [LiveReplica.recompose, reconcileIndex] at found
    dsimp only at found
    split at found
    · exact kept.effective other view (get?_of_erase found)
    · rw [OrderedMap.get?_set] at found
      split at found
      · next same =>
          cases found
          rw [same]
          exact kept.retained closed id
      · exact kept.effective other view found

theorem Kept.resync [DecidableEq V] (kept : Kept P replica) (id : String)
    (previous : Option (Entity V)) : Kept P (replica.resync options id previous) := by
  rcases @resync_eq V options _ replica id previous with equal | ⟨type, deleted, equal⟩
  · rw [equal]
    exact kept.recompose closed id previous
  · rw [equal]
    exact (kept.recompose closed id previous).bump id type deleted

theorem Kept.resyncAll [DecidableEq V] (kept : Kept P replica)
    (before : String → Option (Entity V)) (ids : List String) :
    Kept P (resyncAll options before ids replica) := by
  induction ids generalizing replica with
  | nil => exact kept
  | cons id rest induction => exact induction (kept.resync closed id (before id))

variable {row : Entity V}

theorem rowAbout_foldl_replayOrphan {id : String} (rowAbout : row.id = id ∧ P row.fields)
    {orphans : List (OrphanUpdate V)} (about : ∀ orphan ∈ orphans, About P id orphan.update) :
    (orphans.foldl Replica.replayOrphan row).id = id ∧
      P (orphans.foldl Replica.replayOrphan row).fields := by
  induction orphans generalizing row with
  | nil => exact rowAbout
  | cons orphan rest induction =>
      rw [List.foldl_cons]
      apply induction
      · rw [Replica.replayOrphan]
        have applied := @rowAbout_applyUpdate V P closed id (some row) orphan.update
          (fun entity same => Option.some.inj same ▸ rowAbout) (about orphan List.mem_cons_self)
          orphan.gsn orphan.hlc
        cases found : applyUpdate (some row) orphan.update orphan.gsn orphan.hlc with
        | none => exact rowAbout
        | some next => exact applied next found
      · exact fun other member => about other (List.mem_cons_of_mem _ member)

omit closed in
theorem about_bufferUpdate {buffer : OrderedMap String (List (OrphanUpdate V))}
    (kept : ∀ id pending, buffer.get? id = some pending →
      ∀ orphan ∈ pending, About P id orphan.update)
    {entry : OrphanUpdate V} (holds : P (readFields entry.update)) :
    ∀ id pending, (bufferUpdate buffer entry).get? id = some pending →
      ∀ orphan ∈ pending, About P id orphan.update := by
  intro id pending found orphan member
  rw [bufferUpdate, OrderedMap.get?_set] at found
  split at found
  · next same =>
      cases found
      rcases List.mem_append.mp member with earlier | here
      · cases held : buffer.get? entry.update.subjectId with
        | none =>
            rw [held] at earlier
            cases earlier
        | some waiting =>
            rw [held] at earlier
            exact same ▸ kept _ waiting held orphan earlier
      · rw [List.mem_singleton.mp here]
        exact ⟨same.symm, holds⟩
  · exact kept id pending found orphan member

omit closed in
theorem rowAbout_set {entities : OrderedMap String (Entity V)}
    (kept : ∀ id, RowAbout P id (entities.get? id)) {id : String}
    (about : row.id = id ∧ P row.fields)
    : ∀ other, RowAbout P other ((entities.set id row).get? other) := by
  intro other entity found
  rw [OrderedMap.get?_set] at found
  split at found
  · next same =>
      cases found
      exact same ▸ about
  · exact kept other entity found

theorem Kept.replayOrphans (kept : Kept P replica) {id : String} {gsn : Nat} {next : Entity V}
    (about : next.id = id ∧ P next.fields) : Kept P (replica.replayOrphans id gsn next) := by
  rw [LiveReplica.replayOrphans]
  cases found : replica.orphans.get? id with
  | none => exact kept
  | some pending =>
      refine { kept with entities := ?_, orphans := ?_ }
      · apply rowAbout_set kept.entities
        apply rowAbout_foldl_replayOrphan closed about
        intro orphan member
        have waiting := (List.mem_filter.mp (mem_sortBy.mp member)).1
        exact kept.orphans id pending found orphan waiting
      · exact fun other pending found => kept.orphans other pending (get?_of_erase found)

theorem Kept.foldBase (kept : Kept P replica) {update : Update V} (holds : P (readFields update))
    (gsn : Nat) (hlc : HLCTimestamp) (position : Nat) :
    Kept P (replica.foldBase options update gsn hlc position) := by
  have applied := rowAbout_applyUpdate closed (kept.entities update.subjectId)
    ⟨rfl, holds⟩ gsn hlc
  rw [LiveReplica.foldBase]
  dsimp only
  split
  · exact { kept with pendingOpens := about_bufferUpdate kept.pendingOpens holds }
  · cases found : applyUpdate (replica.entities.get? update.subjectId) update gsn hlc with
    | none =>
        dsimp only
        split
        · exact kept
        · exact { kept with orphans := about_bufferUpdate kept.orphans holds }
    | some next =>
        have about := applied next found
        dsimp only
        split
        · apply kept.mono
          · exact fun _ _ => get?_of_erase
          · exact fun _ _ held => held
          · exact fun _ _ held => held
          · intro id pending held
            dsimp only at held
            split at held
            · exact get?_of_erase held
            · exact held
          · exact fun _ _ held => held
        · have installed : Kept P { replica with
              entities := replica.entities.set update.subjectId next
              typeIndex := retype replica.typeIndex (replica.entities.get? update.subjectId) next
                update.subjectId } :=
            { kept with entities := rowAbout_set kept.entities about }
          split
          · exact installed.replayOrphans closed about
          · exact installed

theorem Kept.foldl_foldBase {γ : Type} (kept : Kept P replica) (updateOf : γ → Update V)
    (gsn : γ → Nat) (hlc : γ → HLCTimestamp) (position : γ → Nat) {folds : List γ}
    (holds : ∀ fold ∈ folds, P (readFields (updateOf fold))) :
    Kept P (folds.foldl (fun replica fold =>
      replica.foldBase options (updateOf fold) (gsn fold) (hlc fold) (position fold)) replica) := by
  induction folds generalizing replica with
  | nil => exact kept
  | cons fold rest induction =>
      exact induction (kept.foldBase closed (holds fold List.mem_cons_self) _ _ _)
        fun other member => holds other (List.mem_cons_of_mem _ member)

/-! ### Calls -/

omit closed in
theorem Kept.dropOverlay (kept : Kept P replica) (actionId : String) :
    Kept P (replica.dropOverlay actionId) := by
  refine { kept with overlay := ?_ }
  have general : ∀ (ids : List String) (overlay : OrderedMap String (List (OptimisticWrite V))),
      (∀ id writes, overlay.get? id = some writes → ∀ write ∈ writes, About P id write.update) →
      ∀ id writes, (ids.foldl (Replica.dropWrites actionId) overlay).get? id = some writes →
        ∀ write ∈ writes, About P id write.update := by
    intro ids
    induction ids with
    | nil => exact fun _ about => about
    | cons head rest induction =>
        intro overlay about
        apply induction
        intro id writes found write member
        rw [Replica.dropWrites] at found
        cases remaining : ((overlay.get? head).getD []).filter
            fun write => write.actionId ≠ actionId with
        | nil =>
            rw [remaining] at found
            exact about id writes (get?_of_erase found) write member
        | cons first others =>
            rw [remaining] at found
            dsimp only at found
            rw [OrderedMap.get?_set] at found
            split at found
            · next same =>
                cases found
                rw [← remaining, List.mem_filter] at member
                cases held : overlay.get? head with
                | none =>
                    rw [held] at member
                    cases member.1
                | some earlier =>
                    rw [held] at member
                    exact same ▸ about head earlier held write member.1
            · exact about id writes found write member
  exact general _ _ kept.overlay

omit closed in
theorem Kept.overlaid (kept : Kept P replica) {action : Action V}
    (holds : ∀ update ∈ action.updates, P (readFields update)) :
    Kept P (replica.overlaid action) := by
  refine { kept with overlay := ?_ }
  have general : ∀ (updates : List (Update V))
      (overlay : OrderedMap String (List (OptimisticWrite V))),
      (∀ update ∈ updates, P (readFields update)) →
      (∀ id writes, overlay.get? id = some writes → ∀ write ∈ writes, About P id write.update) →
      ∀ id writes, (updates.foldl (fun overlay update => overlay.set update.subjectId
        ((overlay.get? update.subjectId).getD [] ++
          [{ actionId := action.id, update, hlc := action.hlc }])) overlay).get? id = some writes →
        ∀ write ∈ writes, About P id write.update := by
    intro updates
    induction updates with
    | nil => exact fun _ _ about => about
    | cons update rest induction =>
        intro overlay holds about
        apply induction _ fun other member => holds other (List.mem_cons_of_mem _ member)
        intro id writes found write member
        rw [OrderedMap.get?_set] at found
        split at found
        · next same =>
            cases found
            rcases List.mem_append.mp member with earlier | here
            · cases held : overlay.get? update.subjectId with
              | none =>
                  rw [held] at earlier
                  cases earlier
              | some writes =>
                  rw [held] at earlier
                  exact same ▸ about _ writes held write earlier
            · rw [List.mem_singleton.mp here]
              exact ⟨same.symm, holds update List.mem_cons_self⟩
        · exact about id writes found write member
  exact general _ _ holds kept.overlay

theorem Kept.folded (kept : Kept P replica) (action : Action V) {delta : List (Update V)}
    (holds : ∀ update ∈ delta, P (readFields update)) (position : Nat) :
    Kept P (replica.folded options action delta position) := by
  have folds : Kept P (delta.foldl (fun replica update =>
      replica.foldBase options update action.gsn action.hlc position)
      (replica.dropOverlay action.id)) :=
    (kept.dropOverlay action.id).foldl_foldBase closed id (fun _ => action.gsn)
      (fun _ => action.hlc) (fun _ => position) holds
  exact { folds with }

omit closed in
theorem Kept.cancelOpen (kept : Kept P replica) (id : String) : Kept P (replica.cancelOpen id) := by
  rw [LiveReplica.cancelOpen]
  split
  · exact kept
  · exact { kept with
      pendingOpens := fun other pending found => kept.pendingOpens other pending (get?_of_erase found) }

omit closed in
theorem Kept.forget (kept : Kept P replica) (id : String) : Kept P (replica.forget options id) := by
  exact (kept.cancelOpen id).mono (fun _ _ => get?_of_erase) (fun _ _ => get?_of_erase)
    (fun _ _ => get?_of_erase) (fun _ _ => get?_of_erase) (fun _ _ => get?_of_erase)

omit closed in
theorem Kept.evictOne (kept : Kept P replica) (id : String) :
    Kept P (replica.evictOne options id) := by
  rw [LiveReplica.evictOne]
  split
  · exact kept.forget id
  · exact (kept.forget id).bump id _ _

omit closed in
theorem Kept.evict (kept : Kept P replica) (ids : List String) :
    Kept P (replica.evict options ids) := by
  rw [LiveReplica.evict]
  induction ids.eraseDups generalizing replica with
  | nil => exact kept
  | cons id rest induction => exact induction (kept.evictOne id)

omit closed in
theorem Kept.openPin (kept : Kept P replica) (id : String) :
    Kept P (replica.openPin options id) := by
  apply Kept.evict
  exact { kept with }

omit closed in
theorem Kept.closePin (kept : Kept P replica) (id : String) :
    Kept P (replica.closePin options id) := by
  rw [LiveReplica.closePin]
  split
  · exact kept
  · split
    · exact kept
    · split
      · exact { kept with }
      · apply Kept.evict
        exact { kept with }

theorem Kept.install [DecidableEq V] (kept : Kept P replica) {id : String}
    (about : row.id = id ∧ P row.fields) {buffered : List (OrphanUpdate V)}
    (holds : ∀ orphan ∈ buffered, P (readFields orphan.update)) :
    Kept P (replica.install options id row buffered) := by
  apply Kept.resync closed
  apply Kept.foldl_foldBase closed _ OrphanUpdate.update OrphanUpdate.gsn OrphanUpdate.hlc
    OrphanUpdate.position holds
  apply Kept.openPin
  exact { kept with entities := rowAbout_set kept.entities about }

theorem Kept.opened [DecidableEq V] (kept : Kept P replica) {id : String} {epoch : Nat}
    {loaded : Option (Entity V)} (about : RowAbout P id loaded) :
    Kept P (replica.opened options id epoch loaded) := by
  have landed : Kept P (replica.landed id epoch) := { kept with }
  have drained : Kept P { replica.landed id epoch with
      pendingOpens := (replica.landed id epoch).pendingOpens.erase id } :=
    { landed with
      pendingOpens := fun other pending found => kept.pendingOpens other pending (get?_of_erase found) }
  rw [LiveReplica.opened]
  dsimp only
  split
  · exact landed
  · split
    · exact drained
    · split
      · exact drained
      · next row _ =>
          apply drained.install closed (about row rfl)
          intro orphan member
          cases found : replica.pendingOpens.get? id with
          | none =>
              have empty : (replica.landed id epoch).pendingOpens.get? id = none := found
              rw [empty] at member
              cases member
          | some pending =>
              have held : (replica.landed id epoch).pendingOpens.get? id = some pending := found
              rw [held] at member
              exact (kept.pendingOpens id pending found orphan member).2

omit closed in
theorem Kept.openRow (kept : Kept P replica) (id : String) :
    Kept P (replica.openRow options id) := by
  rw [LiveReplica.openRow]
  split
  · split
    · exact kept
    · exact kept.openPin id
  · split
    · exact kept
    · exact { kept with }

omit closed in
theorem Kept.close (kept : Kept P replica) (id : String) : Kept P (replica.close options id) := by
  rw [LiveReplica.close]
  split
  · exact kept.cancelOpen id
  · split
    · exact kept
    · dsimp only
      split
      · exact (kept.cancelOpen id).closePin id
      · exact (kept.cancelOpen id).evict [id]

omit closed in
theorem Kept.loadRow (kept : Kept P replica) (holds : P row.fields) :
    Kept P (replica.loadRow options row) := by
  rw [LiveReplica.loadRow]
  split
  · exact { kept with entities := rowAbout_set kept.entities ⟨rfl, holds⟩ }
  · exact kept

omit closed in
theorem Kept.load (kept : Kept P replica) {record : ReplicaRecord V}
    (holds : ∀ row ∈ record.entities, P row.fields) : Kept P (replica.load options record) := by
  rw [LiveReplica.load]
  split
  · exact kept
  · have start : Kept P { (empty : LiveReplica V) with
        nextOpenEpoch := replica.nextOpenEpoch
        reads := replica.reads
        revision := if record.revision > replica.revision then record.revision
          else replica.revision + 1
        changeFloor := if record.revision > replica.revision then record.revision
          else replica.revision + 1
        lastPosition := record.position } := { @kept_empty V P with }
    have general : ∀ (rows : List (Entity V)) (replica : LiveReplica V), Kept P replica →
        (∀ row ∈ rows, P row.fields) → Kept P (rows.foldl (LiveReplica.loadRow options) replica) := by
      intro rows
      induction rows with
      | nil => exact fun _ kept _ => kept
      | cons row rest induction =>
          intro replica kept holds
          exact induction _ (kept.loadRow (holds row List.mem_cons_self))
            fun other member => holds other (List.mem_cons_of_mem _ member)
    exact general _ _ start holds

/-- The fields that reach the replica from outside, and the reader of the local stores
returns the row that was asked for. -/
def Event.Brings (P : Fields V → Prop) : Event V → Prop
  | .ingest _ delta _ => ∀ update ∈ delta, P (readFields update)
  | .optimistic action => ∀ update ∈ action.updates, P (readFields update)
  | .load record => ∀ row ∈ record.entities, P row.fields
  | .opened id _ loaded => RowAbout P id loaded
  | _ => True

theorem kept_step [DecidableEq V] {next : LiveReplica V} {event : Event V}
    (kept : Kept P replica) (brings : event.Brings P)
    (stepped : replica.step options event = some next) : Kept P next := by
  cases event with
  | ingest action delta position =>
      cases stepped
      exact (kept.folded closed action brings position).resyncAll closed _ _
  | optimistic action =>
      cases stepped
      exact (kept.overlaid brings).resyncAll closed _ _
  | discard actionId =>
      cases stepped
      exact (kept.dropOverlay actionId).resyncAll closed _ _
  | evict ids =>
      cases stepped
      exact kept.evict ids
  | load record =>
      cases stepped
      exact kept.load brings
  | openRow id =>
      cases stepped
      exact kept.openRow id
  | opened id epoch loaded =>
      rw [step] at stepped
      split at stepped
      · cases stepped
        exact kept.opened closed brings
      · cases stepped
  | readFailed id epoch =>
      rw [step] at stepped
      split at stepped
      · cases stepped
        exact { kept with }
      · cases stepped
  | close id =>
      cases stepped
      exact kept.close id
  | release id =>
      rw [step] at stepped
      split at stepped
      · cases stepped
        exact kept.evict [id]
      · cases stepped

end Kept

end Ebb.Storage.LiveReplica
