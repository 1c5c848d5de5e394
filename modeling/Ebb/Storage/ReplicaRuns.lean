import Ebb.Foundation.Machine
import Ebb.Storage.ReplicaReplay

namespace Ebb.Storage

/-! Runs of deliveries: the replica's base row of every entity against the
store's materialization of it. -/

/-! ## One entity of the replica -/

/-- What the replica keeps under one entity id. -/
structure Slot (V : Type) where
  row : Option (Entity V)
  orphans : List (OrphanUpdate V)

def Replica.slot (replica : Replica V) (id : String) : Slot V :=
  { row := replica.entities.get? id, orphans := (replica.orphans.get? id).getD [] }

/-- No row is kept for a reader and no cold read is in flight. -/
structure Replica.Unopened (replica : Replica V) : Prop where
  pins : replica.pins = []
  inFlightOpens : replica.inFlightOpens = []

/-- One Update folded into an unopened replica, at its entity. -/
def foldSlot (holds : String → Bool) (slot : Slot V) (orphan : OrphanUpdate V) : Slot V :=
  match applyUpdate slot.row orphan.update orphan.gsn orphan.hlc with
  | none =>
      if holds orphan.update.subjectType then
        { slot with orphans := slot.orphans ++ [orphan] }
      else slot
  | some next =>
      if holds next.type = false then
        { row := none, orphans := if orphan.update.method = .put then [] else slot.orphans }
      else if orphan.update.method = .put then
        { row := some ((Replica.survivors slot.orphans orphan.gsn).foldl
            Replica.replayOrphan next)
          orphans := [] }
      else { slot with row := some next }

namespace Replica

variable {holds : String → Bool} {replica : Replica V}

theorem slot_installPut (id other : String) (gsn : Nat) (row : Entity V) :
    (replica.installPut id gsn row).slot other =
      if other = id then
        { row := some ((survivors (replica.slot id).orphans gsn).foldl replayOrphan row)
          orphans := [] }
      else replica.slot other := by
  simp only [installPut, slot]
  cases found : replica.orphans.get? id with
  | none =>
      by_cases same : other = id
      · simp [same, found, survivors, sortBy]
      · simp [same, OrderedMap.get?_set]
  | some pending =>
      by_cases same : other = id
      · simp [same, OrderedMap.get?_erase]
      · simp [same, OrderedMap.get?_set, OrderedMap.get?_erase]

theorem slot_foldBase (unopened : replica.Unopened) (update : Update V) (gsn : Nat)
    (hlc : HLCTimestamp) (position : Nat) (id : String) :
    (replica.foldBase holds update gsn hlc position).slot id =
      if id = update.subjectId then
        foldSlot holds (replica.slot id) { update, gsn, hlc, position }
      else replica.slot id := by
  have notInFlight : update.subjectId ∉ replica.inFlightOpens := by
    simp [unopened.inFlightOpens]
  have notPinned : ∀ id, id ∉ replica.pins := by
    simp [unopened.pins]
  by_cases same : id = update.subjectId
  · subst same
    simp only [foldBase, foldSlot, notInFlight, notPinned, resident, slot]
    cases applied : applyUpdate (replica.entities.get? update.subjectId) update gsn hlc with
    | none =>
        cases held : holds update.subjectType with
        | true => simp [bufferUpdate]
        | false => simp
    | some next =>
        cases held : holds next.type with
        | true =>
            by_cases put : update.method = .put
            · have installed := @slot_installPut V replica update.subjectId update.subjectId
                gsn next
              simp only [if_true, slot] at installed
              simpa [put, held] using installed
            · simp [put, held]
        | false =>
            by_cases put : update.method = .put
            · simp [put, held, OrderedMap.get?_erase]
            · simp [put, held, OrderedMap.get?_erase]
  · rw [if_neg same]
    simp only [foldBase, notInFlight, notPinned, resident]
    cases applied : applyUpdate (replica.entities.get? update.subjectId) update gsn hlc with
    | none =>
        cases held : holds update.subjectType with
        | true => simp [slot, bufferUpdate, OrderedMap.get?_set, same]
        | false => simp
    | some next =>
        cases held : holds next.type with
        | true =>
            by_cases put : update.method = .put
            · simp [put, held, slot_installPut, same]
            · simp [put, held, slot, OrderedMap.get?_set, same]
        | false =>
            by_cases put : update.method = .put
            · simp [put, held, slot, OrderedMap.get?_erase, same]
            · simp [put, held, slot, OrderedMap.get?_erase, same]

theorem Unopened.foldBase (unopened : replica.Unopened) (update : Update V) (gsn : Nat)
    (hlc : HLCTimestamp) (position : Nat) :
    (replica.foldBase holds update gsn hlc position).Unopened := by
  have kept : (replica.foldBase holds update gsn hlc position).pins = replica.pins ∧
      (replica.foldBase holds update gsn hlc position).inFlightOpens =
        replica.inFlightOpens := by
    simp only [Replica.foldBase, installPut]
    repeat' split
    all_goals exact ⟨rfl, rfl⟩
  exact ⟨kept.1.trans unopened.pins, kept.2.trans unopened.inFlightOpens⟩

end Replica

/-! ## Orphans as logged Updates -/

def OrphanUpdate.committed (orphan : OrphanUpdate V) : CommittedUpdate V :=
  { gsn := orphan.gsn, hlc := orphan.hlc, actorId := "", update := orphan.update }

def unsigned (committed : CommittedUpdate V) : CommittedUpdate V :=
  { committed with actorId := "" }

theorem foldl_applyCommitted_unsigned (row : Option (Entity V))
    (updates : List (CommittedUpdate V)) :
    (updates.map unsigned).foldl applyCommitted row = updates.foldl applyCommitted row := by
  rw [List.foldl_map]
  rfl

theorem foldl_replayOrphan (row : Entity V) (orphans : List (OrphanUpdate V)) :
    some (orphans.foldl Replica.replayOrphan row) =
      (orphans.map OrphanUpdate.committed).foldl applyCommitted (some row) := by
  induction orphans generalizing row with
  | nil => rfl
  | cons orphan rest induction =>
      have applied : applyCommitted (some row) orphan.committed =
          some (Replica.replayOrphan row orphan) := by
        simp only [applyCommitted, Replica.replayOrphan, OrphanUpdate.committed]
        cases method : orphan.update.method with
        | put => simp [applyUpdate, method]
        | patch =>
            simp only [applyUpdate, method]
            split <;> rfl
        | delete => simp [applyUpdate, method]
      rw [List.foldl_cons, List.map_cons, List.foldl_cons, induction, applied]

variable {updates : List (CommittedUpdate V)} {slot : Slot V} {committed : CommittedUpdate V}

theorem survivors_committed (sorted : SortedBy CommittedUpdate.gsn updates)
    {orphans : List (OrphanUpdate V)} {buffers : CommittedUpdate V → Bool}
    (buffered : ∀ value, fiber CommittedUpdate.gsn value (orphans.map OrphanUpdate.committed) =
      fiber CommittedUpdate.gsn value ((updates.filter buffers).map unsigned))
    {gsn : Nat} (all : ∀ later ∈ beyond CommittedUpdate.gsn gsn updates, buffers later = true) :
    (Replica.survivors orphans gsn).map OrphanUpdate.committed =
      (beyond CommittedUpdate.gsn gsn updates).map unsigned := by
  have filtered : beyond CommittedUpdate.gsn gsn updates =
      beyond CommittedUpdate.gsn gsn (updates.filter buffers) := by
    conv_lhs => rw [← List.filter_eq_self.mpr all]
    simp only [beyond, List.filter_filter]
    congr 1
    funext update
    exact Bool.and_comm _ _
  have leftSorted : SortedBy CommittedUpdate.gsn
      ((Replica.survivors orphans gsn).map OrphanUpdate.committed) := by
    rw [SortedBy, List.pairwise_map]
    exact sortedBy_sortBy _
  have rightSorted : SortedBy CommittedUpdate.gsn
      ((beyond CommittedUpdate.gsn gsn updates).map unsigned) := by
    rw [SortedBy, List.pairwise_map]
    exact sorted.filter _
  apply eq_of_fibers leftSorted rightSorted
  intro value
  have same := buffered value
  have survivorFiber := @fiber_filter_key (OrphanUpdate V) OrphanUpdate.gsn value
    (fun other => gsn < other) orphans
  have laterFiber := @fiber_filter_key (CommittedUpdate V) CommittedUpdate.gsn value
    (fun other => gsn < other) (updates.filter buffers)
  have orphanKey : (fun orphan : OrphanUpdate V => orphan.committed.gsn) = OrphanUpdate.gsn := rfl
  have updateKey : (fun update : CommittedUpdate V => (unsigned update).gsn) =
      CommittedUpdate.gsn := rfl
  rw [fiber_map, fiber_map, orphanKey, updateKey] at same
  rw [filtered, fiber_map, fiber_map, orphanKey, updateKey, Replica.survivors, fiber_sortBy,
    survivorFiber, beyond, laterFiber]
  split
  · exact same
  · rfl

/-! ## One Update -/

/-- A slot that follows the log: it has the held row of the replay, and while no
put was logged it buffers every Update of a held type. -/
structure Follows (holds : String → Bool) (updates : List (CommittedUpdate V))
    (slot : Slot V) : Prop where
  row : SameRow slot.row (heldRow holds (updates.foldl applyCommitted none))
  orphansLogged : ∀ orphan ∈ slot.orphans, ∃ committed ∈ updates, committed.gsn = orphan.gsn
  orphans : (∀ committed ∈ updates, isPut committed = false) → ∀ gsn,
    fiber CommittedUpdate.gsn gsn (slot.orphans.map OrphanUpdate.committed) =
      fiber CommittedUpdate.gsn gsn ((updates.filter fun committed =>
        holds committed.update.subjectType).map unsigned)

theorem survivors_eq_nil {holds : String → Bool} (follows : Follows holds updates slot) {gsn : Nat}
    (nothingLater : beyond CommittedUpdate.gsn gsn updates = []) :
    Replica.survivors slot.orphans gsn = [] := by
  have noneNewer : (slot.orphans.filter fun orphan => gsn < orphan.gsn) = [] := by
    rw [List.filter_eq_nil_iff]
    intro orphan member
    rcases follows.orphansLogged orphan member with ⟨logged, loggedMember, sameGsn⟩
    have notLater := List.filter_eq_nil_iff.mp nothingLater logged loggedMember
    simpa only [sameGsn] using notLater
  rw [Replica.survivors, noneNewer]
  simp [sortBy]

theorem foldl_insertBy_of_put (put : isPut committed = true) (row : Option (Entity V)) :
    (insertBy CommittedUpdate.gsn committed updates).foldl applyCommitted none =
      (beyond CommittedUpdate.gsn committed.gsn updates).foldl applyCommitted
        (applyCommitted row committed) := by
  rw [insertBy, List.foldl_append, List.foldl_cons, applyCommitted_of_put put _ row]

theorem heldRow_insertBy_of_unheldPut {holds : String → Bool}
    (sorted : SortedBy CommittedUpdate.gsn updates) (inPlace : InPlace holds updates committed)
    (put : isPut committed = true) (notHeld : holds committed.update.subjectType = false) :
    heldRow holds ((insertBy CommittedUpdate.gsn committed updates).foldl applyCommitted none) =
      none := by
  rw [foldl_insertBy_of_put put none]
  by_cases laterPut : ∃ later ∈ beyond CommittedUpdate.gsn committed.gsn updates,
      isPut later = true
  · have split := upTo_append_beyond sorted committed.gsn
    rcases inPlace with nothingLater | inPlace
    · rw [nothingLater] at laterPut
      simp at laterPut
    · cases before : heldRow holds (updates.foldl applyCommitted none) with
      | some row =>
          have method : committed.update.method = .put := eq_of_beq put
          simp only [before, method] at inPlace
      | none =>
          rw [← split, List.foldl_append] at before
          rw [foldl_applyCommitted_of_put laterPut, before]
  · have noPut : ∀ later ∈ beyond CommittedUpdate.gsn committed.gsn updates,
        isPut later = false := by
      intro later member
      cases method : isPut later with
      | false => rfl
      | true => exact absurd ⟨later, member, method⟩ laterPut
    rw [heldRow_eq_none_iff, type_foldl_of_noPut noPut, type_applyCommitted, if_pos put]
    intro type same
    rw [← Option.some.inj same]
    exact notHeld

theorem heldRow_insertBy_of_put {holds : String → Bool} (follows : Follows holds updates slot)
    (sorted : SortedBy CommittedUpdate.gsn updates) (inPlace : InPlace holds updates committed)
    (put : isPut committed = true) {next : Entity V}
    (applied : applyCommitted slot.row committed = some next) (held : holds next.type = true) :
    heldRow holds ((insertBy CommittedUpdate.gsn committed updates).foldl applyCommitted none) =
      some ((Replica.survivors slot.orphans committed.gsn).foldl Replica.replayOrphan next) := by
  have nextType : some next.type = some committed.update.subjectType := by
    have same := type_applyCommitted slot.row committed
    rwa [applied, if_pos put] at same
  have later : (∀ other ∈ beyond CommittedUpdate.gsn committed.gsn updates,
      isPut other = false) ∧
        (beyond CommittedUpdate.gsn committed.gsn updates).foldl applyCommitted (some next) =
          some ((Replica.survivors slot.orphans committed.gsn).foldl
            Replica.replayOrphan next) := by
    rcases inPlace with nothingLater | inPlace
    · rw [nothingLater, survivors_eq_nil follows nothingLater]
      exact ⟨by simp, rfl⟩
    · cases before : heldRow holds (updates.foldl applyCommitted none) with
      | some row =>
          have method : committed.update.method = .put := eq_of_beq put
          simp only [before, method] at inPlace
      | none =>
          simp only [before] at inPlace
          rcases inPlace put (Option.some.inj nextType ▸ held) with ⟨noPut, laterHeld⟩
          refine ⟨fun other member => noPut other (List.mem_filter.mp member).1, ?_⟩
          rw [foldl_replayOrphan, survivors_committed sorted (follows.orphans noPut) laterHeld,
            foldl_applyCommitted_unsigned]
  rw [foldl_insertBy_of_put put slot.row, applied, heldRow_eq_some_iff]
  refine ⟨later.2, ?_⟩
  have sameType := type_foldl_of_noPut later.1 (some next)
  rw [later.2] at sameType
  rw [Option.some.inj sameType]
  exact held

theorem Follows.put {holds : String → Bool} (follows : Follows holds updates slot)
    (sorted : SortedBy CommittedUpdate.gsn updates) (inPlace : InPlace holds updates committed)
    (method : committed.update.method = .put) (position : Nat) :
    Follows holds (insertBy CommittedUpdate.gsn committed updates)
      (foldSlot holds slot
        { update := committed.update, gsn := committed.gsn, hlc := committed.hlc, position }) := by
  have put : isPut committed = true := by simp [isPut, method]
  have inserted : committed ∈ insertBy CommittedUpdate.gsn committed updates :=
    mem_insertBy.mpr (.inl rfl)
  -- The clauses about orphans are void: a put leaves none behind.
  have settled : ∀ {row : Option (Entity V)},
      row = heldRow holds
        ((insertBy CommittedUpdate.gsn committed updates).foldl applyCommitted none) →
      Follows holds (insertBy CommittedUpdate.gsn committed updates) { row, orphans := [] } := by
    intro row same
    exact {
      row := same ▸ SameRow.refl _
      orphansLogged := by simp
      orphans := fun noPut => by
        have := noPut committed inserted
        rw [put] at this
        cases this }
  cases applied : applyUpdate slot.row committed.update committed.gsn committed.hlc with
  | none => simp [applyUpdate, method] at applied
  | some next =>
      have nextType : next.type = committed.update.subjectType := by
        simp only [applyUpdate, method, Option.some.injEq] at applied
        rw [← applied]
      simp only [foldSlot, applied, method, if_true]
      cases held : holds next.type with
      | false =>
          have gone := heldRow_insertBy_of_unheldPut sorted inPlace put (nextType ▸ held)
          exact settled gone.symm
      | true =>
          have replayed := heldRow_insertBy_of_put follows sorted inPlace put applied held
          exact settled replayed.symm

theorem type_insertBy (sorted : SortedBy CommittedUpdate.gsn updates)
    (notPut : isPut committed = false) :
    ((insertBy CommittedUpdate.gsn committed updates).foldl applyCommitted none).map Entity.type =
      (updates.foldl applyCommitted none).map Entity.type := by
  have split := upTo_append_beyond sorted committed.gsn
  conv_rhs => rw [← split]
  rw [insertBy, List.foldl_append, List.foldl_append, List.foldl_cons]
  apply type_foldl_applyCommitted_congr
  rw [type_applyCommitted, notPut]
  rfl

theorem Follows.orphansLogged_insertBy {holds : String → Bool}
    (follows : Follows holds updates slot) :
    ∀ orphan ∈ slot.orphans,
      ∃ other ∈ insertBy CommittedUpdate.gsn committed updates, other.gsn = orphan.gsn := by
  intro orphan member
  rcases follows.orphansLogged orphan member with ⟨other, otherMember, same⟩
  exact ⟨other, mem_insertBy.mpr (.inr otherMember), same⟩

theorem noPut_of_insertBy
    (noPut : ∀ other ∈ insertBy CommittedUpdate.gsn committed updates, isPut other = false) :
    ∀ other ∈ updates, isPut other = false :=
  fun other member => noPut other (mem_insertBy.mpr (.inr member))

theorem Follows.row_eq_none {holds : String → Bool} (follows : Follows holds updates slot)
    (absent : heldRow holds (updates.foldl applyCommitted none) = none) : slot.row = none := by
  have same := follows.row
  rw [absent] at same
  rcases stored : slot.row with _ | row
  · rfl
  · rw [stored] at same
    exact same.elim

theorem applyUpdate_none_of_ne_put {update : Update V} (method : update.method ≠ .put)
    (gsn : Nat) (hlc : HLCTimestamp) : applyUpdate none update gsn hlc = none := by
  cases kind : update.method with
  | put => exact absurd kind method
  | patch => simp [applyUpdate, kind]
  | delete => simp [applyUpdate, kind]

theorem fiber_held_insertBy {holds : String → Bool} (gsn : Nat) :
    fiber CommittedUpdate.gsn gsn
        (((insertBy CommittedUpdate.gsn committed updates).filter fun other =>
          holds other.update.subjectType).map unsigned) =
      fiber CommittedUpdate.gsn gsn
          ((updates.filter fun other => holds other.update.subjectType).map unsigned) ++
        fiber CommittedUpdate.gsn gsn
          (([committed].filter fun other => holds other.update.subjectType).map unsigned) := by
  have updateKey : (fun update : CommittedUpdate V => (unsigned update).gsn) =
      CommittedUpdate.gsn := rfl
  rw [fiber_map, fiber_map, fiber_map, updateKey, fiber_filter, fiber_filter, fiber_filter,
    fiber_insertBy, List.filter_append, List.map_append]

/-- Without a held row an Update of a held type waits, one of another type is let go. -/
theorem Follows.waits {holds : String → Bool} (follows : Follows holds updates slot)
    (sorted : SortedBy CommittedUpdate.gsn updates) (method : committed.update.method ≠ .put)
    (before : heldRow holds (updates.foldl applyCommitted none) = none) (position : Nat) :
    Follows holds (insertBy CommittedUpdate.gsn committed updates)
      (foldSlot holds slot
        { update := committed.update, gsn := committed.gsn, hlc := committed.hlc, position }) := by
  have notPut : isPut committed = false := by simp [isPut, method]
  have empty := follows.row_eq_none before
  have unapplied : applyUpdate slot.row committed.update committed.gsn committed.hlc = none := by
    rw [empty]
    exact applyUpdate_none_of_ne_put method _ _
  have noRow : SameRow slot.row (heldRow holds
      ((insertBy CommittedUpdate.gsn committed updates).foldl applyCommitted none)) := by
    have stillNone := (heldRow_eq_none_congr (type_insertBy sorted notPut)).mpr before
    rw [empty, stillNone]
    trivial
  simp only [foldSlot, unapplied]
  cases held : holds committed.update.subjectType with
  | true =>
      rw [if_pos rfl]
      exact {
        row := noRow
        orphansLogged := by
          intro orphan member
          rcases List.mem_append.mp member with earlier | added
          · exact follows.orphansLogged_insertBy orphan earlier
          · rw [List.mem_singleton.mp added]
            exact ⟨committed, mem_insertBy.mpr (.inl rfl), rfl⟩
        orphans := by
          intro noPut gsn
          rw [List.map_append, fiber_append, fiber_held_insertBy,
            follows.orphans (noPut_of_insertBy noPut)]
          simp [held, OrphanUpdate.committed, unsigned] }
  | false =>
      rw [if_neg Bool.false_ne_true]
      exact {
        row := noRow
        orphansLogged := follows.orphansLogged_insertBy
        orphans := by
          intro noPut gsn
          rw [fiber_held_insertBy, follows.orphans (noPut_of_insertBy noPut)]
          simp [held, fiber] }

/-- A held row takes the Update, and the replay ends in the same row. -/
theorem Follows.changed {holds : String → Bool} (follows : Follows holds updates slot)
    (sorted : SortedBy CommittedUpdate.gsn updates)
    (keyed : ∀ other ∈ updates, (FieldValue.map (readFields other.update)).Keyed)
    (committedKeyed : (FieldValue.map (readFields committed.update)).Keyed)
    (inPlace : InPlace holds updates committed) (method : committed.update.method ≠ .put)
    {row : Entity V} (before : heldRow holds (updates.foldl applyCommitted none) = some row)
    (position : Nat) :
    Follows holds (insertBy CommittedUpdate.gsn committed updates)
      (foldSlot holds slot
        { update := committed.update, gsn := committed.gsn, hlc := committed.hlc, position }) := by
  have notPut : isPut committed = false := by simp [isPut, method]
  have same := follows.row
  rw [before] at same
  have rowHeld := heldRow_eq_some_iff.mp before
  have late := applyCommitted_late sorted keyed committedKeyed inPlace before
  have folded := (same.applyUpdate committedKeyed committed.gsn committed.hlc).trans late
  have sameType := type_insertBy sorted notPut
  rw [rowHeld.1] at sameType
  rcases Option.map_eq_some_iff.mp sameType with ⟨replayed, replay, replayedType⟩
  rw [replay] at folded
  cases applied : applyUpdate slot.row committed.update committed.gsn committed.hlc with
  | none =>
      rw [applied] at folded
      exact folded.elim
  | some next =>
      rw [applied] at folded
      have replayedHeld : holds replayed.type = true := by
        rw [replayedType]
        exact rowHeld.2
      have nextHeld : holds next.type = true := by
        rw [folded.type]
        exact replayedHeld
      simp only [foldSlot, applied, nextHeld, method]
      exact {
        row := by
          rw [replay, heldRow_eq_some_iff.mpr ⟨rfl, replayedHeld⟩]
          exact folded
        orphansLogged := follows.orphansLogged_insertBy
        orphans := by
          intro noPut
          have noRow := foldl_applyCommitted_none (noPut_of_insertBy noPut)
          rw [rowHeld.1] at noRow
          cases noRow }

theorem Follows.other {holds : String → Bool} (follows : Follows holds updates slot)
    (sorted : SortedBy CommittedUpdate.gsn updates)
    (keyed : ∀ other ∈ updates, (FieldValue.map (readFields other.update)).Keyed)
    (committedKeyed : (FieldValue.map (readFields committed.update)).Keyed)
    (inPlace : InPlace holds updates committed) (method : committed.update.method ≠ .put)
    (position : Nat) :
    Follows holds (insertBy CommittedUpdate.gsn committed updates)
      (foldSlot holds slot
        { update := committed.update, gsn := committed.gsn, hlc := committed.hlc, position }) := by
  cases before : heldRow holds (updates.foldl applyCommitted none) with
  | none => exact follows.waits sorted method before position
  | some row => exact follows.changed sorted keyed committedKeyed inPlace method before position

theorem Follows.foldSlot {holds : String → Bool} (follows : Follows holds updates slot)
    (sorted : SortedBy CommittedUpdate.gsn updates)
    (keyed : ∀ other ∈ updates, (FieldValue.map (readFields other.update)).Keyed)
    (committedKeyed : (FieldValue.map (readFields committed.update)).Keyed)
    (inPlace : InPlace holds updates committed) (position : Nat) :
    Follows holds (insertBy CommittedUpdate.gsn committed updates)
      (foldSlot holds slot
        { update := committed.update, gsn := committed.gsn, hlc := committed.hlc, position }) := by
  by_cases method : committed.update.method = .put
  · exact follows.put sorted inPlace method position
  · exact follows.other sorted keyed committedKeyed inPlace method position

/-! ## One delivery -/

namespace Replica

variable (holds : String → Bool)

theorem slot_resync (replica : Replica V) (id : String) :
    (replica.resync holds id).slot = replica.slot := by
  simp only [resync]
  repeat' split
  all_goals rfl

theorem Unopened.resync {replica : Replica V} (unopened : replica.Unopened) (id : String) :
    (replica.resync holds id).Unopened := by
  have noPins : replica.pins.erase id = [] := by simp [unopened.pins]
  simp only [Replica.resync]
  repeat' split
  all_goals first
    | exact unopened
    | exact ⟨noPins, unopened.inFlightOpens⟩

theorem resync_all {replica : Replica V} (unopened : replica.Unopened) (ids : List String) :
    (ids.foldl (fun replica id => replica.resync holds id) replica).slot = replica.slot ∧
      (ids.foldl (fun replica id => replica.resync holds id) replica).Unopened := by
  induction ids generalizing replica with
  | nil => exact ⟨rfl, unopened⟩
  | cons id rest induction =>
      have later := induction (unopened.resync holds id)
      exact ⟨later.1.trans (slot_resync holds replica id), later.2⟩

end Replica

/-- Each added Update arrives in place, in the log its predecessors left. -/
def FoldsInPlace (holds : String → Bool) (header : Action V) :
    ActionLog V → List (Update V) → Prop
  | _, [] => True
  | log, update :: rest =>
      InPlace holds (log.logged update.subjectId) (header.commit update) ∧
        FoldsInPlace holds header (log.record header.id update) rest

structure Synced (holds : String → Bool) (log : ActionLog V) (replica : Replica V) : Prop where
  wellFormed : log.WellFormed
  unopened : replica.Unopened
  follows : ∀ id, Follows holds (log.logged id) (replica.slot id)

theorem Synced.foldBase {holds : String → Bool} {log : ActionLog V} {replica : Replica V}
    (synced : Synced holds log replica) {header stored : Action V} (member : stored ∈ log)
    (sameId : stored.id = header.id) (sameCommit : stored.commit = header.commit)
    {update : Update V}
    (fresh : ∀ other ∈ log, other.id = header.id → update.id ∉ other.updates.map Update.id)
    (keyed : (FieldValue.map (readFields update)).Keyed)
    (inPlace : InPlace holds (log.logged update.subjectId) (header.commit update))
    (position : Nat) :
    Synced holds (log.record header.id update)
      (replica.foldBase holds update header.gsn header.hlc position) where
  wellFormed := synced.wellFormed.record fresh keyed
  unopened := synced.unopened.foldBase update header.gsn header.hlc position
  follows := by
    intro id
    rw [← sameId, ActionLog.logged_record synced.wellFormed member, sameCommit,
      Replica.slot_foldBase synced.unopened]
    by_cases subject : update.subjectId = id
    · subst subject
      rw [if_pos rfl, if_pos rfl]
      have loggedKeyed : ∀ other ∈ log.logged update.subjectId,
          (FieldValue.map (readFields other.update)).Keyed := by
        intro other otherMember
        rcases ActionLog.mem_logged otherMember with ⟨action, actionMember, known, knownMember, rfl⟩
        exact synced.wellFormed.keyed action actionMember known knownMember
      exact (synced.follows update.subjectId).foldSlot (ActionLog.sortedBy_logged log _)
        loggedKeyed keyed inPlace position
    · rw [if_neg subject, if_neg fun same => subject same.symm]
      exact synced.follows id

theorem Synced.foldl_foldBase {holds : String → Bool} {header : Action V}
    {updates : List (Update V)} (position : Nat) {log : ActionLog V} {replica : Replica V}
    (synced : Synced holds log replica)
    (logged : ∃ stored ∈ log, stored.id = header.id ∧ stored.commit = header.commit)
    (nodup : (updates.map Update.id).Nodup)
    (fresh : ∀ stored ∈ log, stored.id = header.id →
      ∀ update ∈ updates, update.id ∉ stored.updates.map Update.id)
    (keyed : ∀ update ∈ updates, (FieldValue.map (readFields update)).Keyed)
    (inPlace : FoldsInPlace holds header log updates) :
    Synced holds (updates.foldl (ActionLog.record header.id) log)
      (updates.foldl (fun replica update =>
        replica.foldBase holds update header.gsn header.hlc position) replica) := by
  induction updates generalizing log replica with
  | nil => exact synced
  | cons update rest induction =>
      have parts := List.nodup_cons.mp nodup
      rcases logged with ⟨stored, member, sameId, sameCommit⟩
      have stepped := synced.foldBase member sameId sameCommit
        (fun other otherMember same => fresh other otherMember same update List.mem_cons_self)
        (keyed update List.mem_cons_self) inPlace.1 position
      apply induction stepped
      · refine ⟨{ stored with updates := stored.updates ++ [update] }, ?_, sameId, sameCommit⟩
        exact List.mem_map.mpr ⟨stored, member, if_pos sameId⟩
      · exact parts.2
      · intro action actionMember same other otherMember
        rcases ActionLog.mem_record actionMember with ⟨_, different⟩ | ⟨known, knownMember, found, rfl⟩
        · exact absurd same different
        · rw [List.map_append, List.mem_append, not_or]
          refine ⟨fresh known knownMember found other (List.mem_cons_of_mem _ otherMember), ?_⟩
          simp only [List.map_cons, List.map_nil, List.mem_singleton]
          intro equal
          exact parts.1 (List.mem_map.mpr ⟨other, otherMember, equal⟩)
      · exact fun other otherMember => keyed other (List.mem_cons_of_mem _ otherMember)
      · exact inPlace.2

theorem Synced.resync_all {holds : String → Bool} {log : ActionLog V} {replica : Replica V}
    (synced : Synced holds log replica) (ids : List String) (position : Nat) :
    Synced holds log (ids.foldl (fun replica id => replica.resync holds id)
      { replica with lastPosition := position }) := by
  have unopened : Replica.Unopened { replica with lastPosition := position } :=
    ⟨synced.unopened.pins, synced.unopened.inFlightOpens⟩
  have kept := Replica.resync_all holds unopened ids
  exact {
    wellFormed := synced.wellFormed
    unopened := kept.2
    follows := fun id => by
      rw [kept.1]
      exact synced.follows id }

/-! ## Runs of deliveries -/

/-- An Action as the wire delivers it: its Updates have distinct ids and every
record in them holds each key once. -/
structure Delivery (V : Type) where
  action : Action V
  updateIds : (action.updates.map Update.id).Nodup
  keyed : ∀ update ∈ action.updates, (FieldValue.map (readFields update)).Keyed

/-- A delivery whose GSN and repeated ids name what they named before, and whose
new Updates all arrive in place. -/
structure DeliversInPlace (holds : String → Bool) (store : Store V) (delivery : Delivery V) :
    Prop where
  gsnFresh : (∀ stored ∈ store.log, stored.id ≠ delivery.action.id) →
    ∀ stored ∈ store.log, stored.gsn ≠ delivery.action.gsn
  genuine : ∀ stored ∈ store.log, stored.id = delivery.action.id →
    ∀ update ∈ stored.updates, ∀ copy ∈ delivery.action.updates,
      copy.id = update.id → copy = update
  inPlace : FoldsInPlace holds (store.log.append delivery.action).2.action
    (store.log.opened delivery.action) (store.log.append delivery.action).2.added

theorem DeliversInPlace.ofNewAction {holds : String → Bool} {store : Store V}
    {delivery : Delivery V} {update : Update V}
    (new : ∀ stored ∈ store.log, stored.id ≠ delivery.action.id)
    (gsnFresh : ∀ stored ∈ store.log, stored.gsn ≠ delivery.action.gsn)
    (single : delivery.action.updates = [update])
    (inPlace : InPlace holds (store.log.logged update.subjectId)
      (delivery.action.commit update)) : DeliversInPlace holds store delivery where
  gsnFresh := fun _ => gsnFresh
  genuine := fun stored member same => absurd same (new stored member)
  inPlace := by
    have unknown : (store.log.find? fun stored => stored.id == delivery.action.id) = none := by
      rw [List.find?_eq_none]
      intro stored member
      simpa using new stored member
    simp only [ActionLog.append, unknown, single]
    exact ⟨by rw [ActionLog.logged_opened]; exact inPlace, trivial⟩

namespace Store

def machine (holds : String → Bool) : Machine (Store V) (Delivery V) where
  initial := empty
  step store delivery := some (store.deliver holds delivery.action)

/-- The replica's base row of every entity is the store's materialization of it,
kept while the policy holds its type. -/
def ReplicaFollows (holds : String → Bool) (store : Store V) : Prop :=
  ∀ id, SameRow (store.replica.entities.get? id) (heldRow holds (materialize store.log id))

theorem synced_empty (holds : String → Bool) :
    Synced holds (empty : Store V).log (empty : Store V).replica where
  wellFormed := ActionLog.wellFormed_empty
  unopened := ⟨rfl, rfl⟩
  follows := by
    intro id
    have unlogged : (empty : Store V).log.logged id = [] := ActionLog.logged_nil id
    rw [unlogged]
    exact {
      row := trivial
      orphansLogged := by simp [Replica.slot, empty, Replica.empty]
      orphans := fun _ _ => rfl }

theorem synced_deliver {holds : String → Bool} {store : Store V} {delivery : Delivery V}
    (synced : Synced holds store.log store.replica)
    (inPlace : DeliversInPlace holds store delivery) :
    Synced holds (store.deliver holds delivery.action).log
      (store.deliver holds delivery.action).replica := by
  have headerId := ActionLog.append_action_id store.log delivery.action
  have opened : Synced holds (store.log.opened delivery.action)
      (store.replica.dropOverlay (store.log.append delivery.action).2.action.id) := {
    wellFormed := synced.wellFormed.opened inPlace.gsnFresh
    unopened := ⟨synced.unopened.pins, synced.unopened.inFlightOpens⟩
    follows := fun id => by
      rw [ActionLog.logged_opened]
      exact synced.follows id }
  have folded := opened.foldl_foldBase (store.log.append delivery.action).2.position
    (ActionLog.exists_opened store.log delivery.action)
    (ActionLog.added_nodup store.log delivery.updateIds)
    (fun stored member sameId update added =>
      ActionLog.added_fresh synced.wellFormed member (sameId.trans headerId) added)
    (fun update added => delivery.keyed update (ActionLog.added_subset _ _ added))
    inPlace.inPlace
  have logged := ActionLog.append_eq_foldl_record synced.wellFormed delivery.updateIds
    inPlace.genuine
  rw [← headerId] at logged
  rw [← logged] at folded
  -- What is left of the ingestion reads the new base rows and changes none.
  exact folded.resync_all _ _

/-- While every delivery arrives in place, the replica follows the store's
replay at every entity. -/
theorem replicaFollows_of_run {holds : String → Bool} {deliveries : List (Delivery V)}
    {store : Store V}
    (inPlace : (machine holds).Meets (DeliversInPlace holds) (machine holds).initial deliveries)
    (reached : (machine holds).run (machine holds).initial deliveries = some store) :
    store.ReplicaFollows holds := by
  have preserved : ∀ (state : Store V) delivery next, Synced holds state.log state.replica →
      DeliversInPlace holds state delivery → (machine holds).step state delivery = some next →
        Synced holds next.log next.replica := by
    intro state delivery next synced condition stepped
    cases stepped
    exact synced_deliver synced condition
  have synced := Machine.run_preserves preserved (synced_empty holds) inPlace reached
  exact fun id => (synced.follows id).row

/-! ### A late patch and a late put -/

def noteField (field value updateId : String) (hlc : HLCTimestamp) : Fields String :=
  [(field, .leaf { value, updateId, hlc := some hlc })]

def noteDelivery (gsn : Nat) (actionId : String) (method : UpdateMethod)
    (field value updateId : String) : Delivery String where
  action := {
    id := actionId
    actorId := "usr_1"
    hlc := gsn
    gsn
    updates := [{
      id := updateId
      subjectId := "note_1"
      subjectType := "note"
      method
      data := some (noteField field value updateId gsn) }] }
  updateIds := by simp
  keyed := by simp [noteField, readFields, FieldValue.Keyed, fieldsKeyed]

def latePatch : List (Delivery String) :=
  [noteDelivery 1 "act_1" .put "title" "draft" "upd_1",
    noteDelivery 3 "act_3" .patch "body" "text" "upd_3",
    noteDelivery 2 "act_2" .patch "title" "final" "upd_2"]

def holdNotes (type : String) : Bool := type == "note"

theorem latePatch_inPlace :
    (machine holdNotes).Meets (DeliversInPlace holdNotes) (machine holdNotes).initial
      latePatch := by
  refine ⟨?_, fun _ first => ?_⟩
  · exact DeliversInPlace.ofNewAction (by decide) (by decide) rfl (.inl (by decide))
  · cases first
    refine ⟨?_, fun _ second => ?_⟩
    · exact DeliversInPlace.ofNewAction (by decide) (by decide) rfl (.inl (by decide))
    · cases second
      refine ⟨?_, fun _ _ => trivial⟩
      apply DeliversInPlace.ofNewAction (by decide) (by decide) rfl
      -- The patch of the body is newer, and the two patches share no field.
      refine .inr (.inl ⟨rfl, namesStamped_single (by decide) (by decide), fun other member => ?_⟩)
      rw [List.mem_singleton.mp (show other ∈ [_] from member)]
      exact ⟨rfl, namesStamped_single (by decide) (by decide), fun _ found => (nomatch found), trivial⟩

theorem replicaFollows_latePatch :
    (((machine holdNotes).run (machine holdNotes).initial latePatch).get
      (by decide)).ReplicaFollows holdNotes :=
  replicaFollows_of_run latePatch_inPlace (Option.some_get _).symm

def latePut : List (Delivery String) :=
  [noteDelivery 1 "act_1" .put "title" "draft" "upd_1",
    noteDelivery 3 "act_3" .patch "title" "final" "upd_3",
    noteDelivery 2 "act_2" .put "title" "second" "upd_2"]

/-- A put that arrives behind a newer patch replaces the row and the patch with
it. -/
theorem latePut_drops_patch :
    ¬ ∀ store : Store String,
      (machine holdNotes).run (machine holdNotes).initial latePut = some store →
        store.ReplicaFollows holdNotes := by
  intro follows
  have same := (follows _ rfl "note_1").map_lastGsn
  revert same
  decide

end Store

end Ebb.Storage
