import Ebb.Storage.ChangeJournal

namespace Ebb.Storage.LiveReplica

/-! The optimistic overlay as an algebra: the views are the outstanding writes over a base
that only the log moves. -/

/-! ## Calls that write -/

inductive Write (V : Type) where
  | ingest (action : Action V) (delta : List (Update V)) (position : Nat)
  | optimistic (action : Action V)
  | discard (actionId : String)

namespace Write

def ingests : Write V → Bool
  | ingest .. => true
  | _ => false

def submits (actionId : String) : Write V → Bool
  | optimistic action => action.id == actionId
  | _ => false

def apply [DecidableEq V] (options : ReplicaOptions V) (replica : LiveReplica V) :
    Write V → LiveReplica V
  | ingest action delta position => replica.ingest options action delta position
  | optimistic action => replica.optimistic options action
  | discard actionId => replica.discard options actionId

end Write

def written [DecidableEq V] (options : ReplicaOptions V) (replica : LiveReplica V)
    (writes : List (Write V)) : LiveReplica V :=
  writes.foldl (Write.apply options) replica

def writesOn (id : String) (action : Action V) : List (OptimisticWrite V) :=
  (action.updates.filter fun update => update.subjectId = id).map fun update =>
    { actionId := action.id, update, hlc := action.hlc }

def without (actionId : String) (writes : List (OptimisticWrite V)) : List (OptimisticWrite V) :=
  writes.filter fun write => write.actionId ≠ actionId

/-- The optimistic writes on an id that are still outstanding after a call. -/
def outstandingAfter (id : String) (outstanding : List (OptimisticWrite V)) :
    Write V → List (OptimisticWrite V)
  | .ingest action _ _ => without action.id outstanding
  | .optimistic action => outstanding ++ writesOn id action
  | .discard actionId => without actionId outstanding

/-- The submitted writes on an id that were neither echoed nor discarded, in the order of
their submission. -/
def outstanding (id : String) (writes : List (Write V)) : List (OptimisticWrite V) :=
  writes.foldl (outstandingAfter id) []

def withoutSubmissions (actionId : String) (writes : List (Write V)) : List (Write V) :=
  writes.filter fun write => !write.submits actionId

def overBase (writes : List (OptimisticWrite V)) (base : Option (Entity V)) : Option (Entity V) :=
  writes.foldl (fun row write => applyUpdate row write.update 0 write.hlc) base

/-! ## The overlay -/

theorem getD_dropWrites (actionId : String) (overlay : OrderedMap String (List (OptimisticWrite V)))
    (id other : String) :
    ((Replica.dropWrites actionId overlay id).get? other).getD [] =
      if other = id then without actionId ((overlay.get? id).getD [])
      else (overlay.get? other).getD [] := by
  rw [Replica.dropWrites, ← without]
  split
  · next empty =>
      rw [OrderedMap.get?_erase]
      split
      · exact empty.symm
      · rfl
  · rw [OrderedMap.get?_set]
    split
    · rfl
    · rfl

theorem without_idem (actionId : String) (writes : List (OptimisticWrite V)) :
    without actionId (without actionId writes) = without actionId writes := by
  rw [without, without, List.filter_filter]
  simp only [Bool.and_self]

theorem getD_foldl_dropWrites (actionId : String) (ids : List String)
    (overlay : OrderedMap String (List (OptimisticWrite V))) (other : String) :
    ((ids.foldl (Replica.dropWrites actionId) overlay).get? other).getD [] =
      if other ∈ ids then without actionId ((overlay.get? other).getD [])
      else (overlay.get? other).getD [] := by
  induction ids generalizing overlay with
  | nil => rfl
  | cons id rest induction =>
      rw [List.foldl_cons, induction, getD_dropWrites]
      by_cases same : other = id
      · subst same
        rw [if_pos rfl, without_idem, ite_self, if_pos List.mem_cons_self]
      · rw [if_neg same]
        simp only [List.mem_cons, same, false_or]

theorem without_of_notMem {replica : LiveReplica V} {actionId id : String}
    (untouched : id ∉ replica.overlaidBy actionId) :
    without actionId ((replica.overlay.get? id).getD []) = (replica.overlay.get? id).getD [] := by
  rw [without, List.filter_eq_self]
  intro write member
  rw [decide_eq_true_eq]
  intro same
  apply untouched
  rw [overlaidBy, List.mem_filter, OrderedMap.mem_keys_iff]
  constructor
  · cases found : replica.overlay.get? id with
    | none =>
        rw [found] at member
        cases member
    | some writes => exact ⟨writes, rfl⟩
  · exact List.any_eq_true.mpr ⟨write, member, beq_iff_eq.mpr same⟩

theorem getD_dropOverlay (replica : LiveReplica V) (actionId id : String) :
    ((replica.dropOverlay actionId).overlay.get? id).getD [] =
      without actionId ((replica.overlay.get? id).getD []) := by
  rw [dropOverlay]
  dsimp only
  rw [getD_foldl_dropWrites]
  split
  · rfl
  · next untouched => exact (without_of_notMem untouched).symm

theorem getD_overlaid (replica : LiveReplica V) (action : Action V) (id : String) :
    ((replica.overlaid action).overlay.get? id).getD [] =
      (replica.overlay.get? id).getD [] ++ writesOn id action := by
  have general : ∀ (updates : List (Update V))
      (overlay : OrderedMap String (List (OptimisticWrite V))),
      ((updates.foldl (fun overlay update => overlay.set update.subjectId
        ((overlay.get? update.subjectId).getD [] ++
          [{ actionId := action.id, update, hlc := action.hlc }])) overlay).get? id).getD [] =
        (overlay.get? id).getD [] ++
          (updates.filter fun update => update.subjectId = id).map fun update =>
            { actionId := action.id, update, hlc := action.hlc } := by
    intro updates
    induction updates with
    | nil => simp
    | cons update rest induction =>
        intro overlay
        rw [List.foldl_cons, induction, OrderedMap.get?_set]
        by_cases same : id = update.subjectId
        · rw [if_pos same, List.filter_cons_of_pos (by simp [same]), same]
          simp
        · have different : ¬ update.subjectId = id := fun equal => same equal.symm
          rw [if_neg same, List.filter_cons_of_neg (by simpa using different)]
  exact general action.updates replica.overlay

theorem writesOn_eq_nil {id : String} {action : Action V}
    (untouched : id ∉ action.updates.map Update.subjectId) : writesOn id action = [] := by
  rw [writesOn, List.map_eq_nil_iff, List.filter_eq_nil_iff]
  intro update member
  rw [decide_eq_true_eq]
  rintro rfl
  exact untouched (List.mem_map_of_mem member)

/-! ## The base -/

/-- The rows the log moves: the base, and the Updates that wait for a row of it. -/
structure Base (V : Type) where
  entities : OrderedMap String (Entity V)
  orphans : OrderedMap String (List (OrphanUpdate V))

def base (replica : LiveReplica V) : Base V where
  entities := replica.entities
  orphans := replica.orphans

/-- `foldBase/4` in a replica that has no row open: nothing is pinned and no cold read is
in flight. -/
def Base.fold (options : ReplicaOptions V) (base : Base V) (update : Update V) (gsn : Nat)
    (hlc : HLCTimestamp) (position : Nat) : Base V :=
  let id := update.subjectId
  match applyUpdate (base.entities.get? id) update gsn hlc with
  | none =>
      if options.holds update.subjectType then
        { base with orphans := bufferUpdate base.orphans { update, gsn, hlc, position } }
      else base
  | some next =>
      if options.holds next.type = false then
        { entities := base.entities.erase id
          orphans := if update.method = .put then base.orphans.erase id else base.orphans }
      else if update.method = .put then
        match base.orphans.get? id with
        | none => { base with entities := base.entities.set id next }
        | some pending =>
            { entities := (base.entities.set id next).set id
                ((Replica.survivors pending gsn).foldl Replica.replayOrphan next)
              orphans := base.orphans.erase id }
      else { base with entities := base.entities.set id next }

def Base.ingest (options : ReplicaOptions V) (base : Base V) (action : Action V)
    (delta : List (Update V)) (position : Nat) : Base V :=
  delta.foldl (fun base update => base.fold options update action.gsn action.hlc position) base

def Base.after (options : ReplicaOptions V) (base : Base V) : Write V → Base V
  | .ingest action delta position => base.ingest options action delta position
  | _ => base

/-- Nothing is pinned and no cold read is in flight. -/
structure Unopened (replica : LiveReplica V) : Prop where
  pins : replica.pins = .empty
  reads : replica.inFlightOpens = .empty

/-- Every row is of a held type, and only patches and deletes wait for one. -/
structure Base.Held (options : ReplicaOptions V) (base : Base V) : Prop where
  rows : ∀ id row, base.entities.get? id = some row → options.holds row.type = true
  orphans : ∀ id pending, base.orphans.get? id = some pending →
    ∀ orphan ∈ pending, orphan.update.method ≠ .put

section Fold

variable {options : ReplicaOptions V} {replica : LiveReplica V}

theorem Unopened.resident (unopened : Unopened replica) (row : Entity V) :
    replica.resident options row = options.holds row.type := by
  rw [LiveReplica.resident, unopened.pins]
  exact Bool.or_false _

theorem Unopened.foldBase (unopened : Unopened replica) (update : Update V) (gsn : Nat)
    (hlc : HLCTimestamp) (position : Nat) :
    Unopened (replica.foldBase options update gsn hlc position) ∧
      (replica.foldBase options update gsn hlc position).base =
        replica.base.fold options update gsn hlc position ∧
      (replica.foldBase options update gsn hlc position).overlay = replica.overlay ∧
      (replica.foldBase options update gsn hlc position).effective = replica.effective := by
  have frame := @foldBase_eq V options replica update gsn hlc position
  have noRead : (replica.inFlightOpens.get? update.subjectId).isSome = false := by
    rw [unopened.reads]
    rfl
  have noPin : (replica.pins.get? update.subjectId).isNone = true := by
    rw [unopened.pins]
    rfl
  refine ⟨?_, ?_, ?_⟩
  · rcases frame with ⟨_, _, _, _, equal, _⟩
    rw [equal]
    exact { pins := unopened.pins, reads := unopened.reads }
  · rw [LiveReplica.foldBase, Base.fold]
    dsimp only
    rw [noRead, noPin, Bool.and_false, if_neg Bool.false_ne_true, Bool.and_true]
    change _ = (match applyUpdate (replica.entities.get? update.subjectId) update gsn hlc with
      | none => _
      | some next => _)
    cases applied : applyUpdate (replica.entities.get? update.subjectId) update gsn hlc with
    | none =>
        dsimp only
        cases options.holds update.subjectType with
        | true => rfl
        | false => rfl
    | some next =>
        dsimp only
        rw [unopened.resident]
        split
        · rfl
        · split
          · rw [replayOrphans]
            dsimp only
            change _ = (match replica.orphans.get? update.subjectId with
              | none => _
              | some pending => _)
            cases replica.orphans.get? update.subjectId with
            | none => rfl
            | some pending => rfl
          · rfl
  · rcases frame with ⟨_, _, _, _, equal, _⟩
    rw [equal]
    exact ⟨rfl, rfl⟩

theorem type_replayOrphan {row : Entity V} {orphan : OrphanUpdate V}
    (patches : orphan.update.method ≠ .put) :
      (Replica.replayOrphan row orphan).type = row.type := by
  rw [Replica.replayOrphan, applyUpdate.eq_def]
  cases method : orphan.update.method with
  | put => exact absurd method patches
  | patch =>
      dsimp only
      split
      · rfl
      · rfl
  | delete => rfl

theorem type_foldl_replayOrphan {row : Entity V} {pending : List (OrphanUpdate V)}
    (patches : ∀ orphan ∈ pending, orphan.update.method ≠ .put) :
    (pending.foldl Replica.replayOrphan row).type = row.type := by
  induction pending generalizing row with
  | nil => rfl
  | cons orphan rest induction =>
      rw [List.foldl_cons, induction fun other member => patches other (List.mem_cons_of_mem _ member)]
      exact type_replayOrphan (patches orphan List.mem_cons_self)

theorem Base.Held.fold {base : Base V} (held : base.Held options) (update : Update V) (gsn : Nat)
    (hlc : HLCTimestamp) (position : Nat) : (base.fold options update gsn hlc position).Held
      options := by
  rw [Base.fold]
  cases applied : applyUpdate (base.entities.get? update.subjectId) update gsn hlc with
  | none =>
      dsimp only
      split
      · refine { held with orphans := ?_ }
        intro id pending found orphan member
        have patches : update.method ≠ .put := by
          intro put
          rw [applyUpdate.eq_def, put] at applied
          cases applied
        dsimp only at found
        rw [bufferUpdate, OrderedMap.get?_set] at found
        split at found
        · cases found
          rcases List.mem_append.mp member with old | new
          · cases waiting : base.orphans.get? update.subjectId with
            | none =>
                rw [waiting] at old
                cases old
            | some earlier =>
                rw [waiting] at old
                exact held.orphans _ earlier waiting orphan old
          · rw [List.mem_singleton.mp new]
            exact patches
        · exact held.orphans id pending found orphan member
      · exact held
  | some next =>
      dsimp only
      split
      · constructor
        case rows => exact fun id row found => held.rows id row (get?_of_erase found)
        case orphans =>
          intro id pending found
          dsimp only at found
          split at found
          · exact held.orphans id pending (get?_of_erase found)
          · exact held.orphans id pending found
      · next stays =>
          have holds : options.holds next.type = true := Bool.not_eq_false _ ▸ stays
          have setHeld : ∀ (entities : OrderedMap String (Entity V)) (row : Entity V),
              (∀ id current, entities.get? id = some current → options.holds current.type = true) →
              options.holds row.type = true → ∀ id current,
                (entities.set update.subjectId row).get? id = some current →
                  options.holds current.type = true := by
            intro entities row rows rowHeld id current found
            rw [OrderedMap.get?_set] at found
            split at found
            · cases found
              exact rowHeld
            · exact rows id current found
          split
          · split
            · exact { held with rows := setHeld _ next held.rows holds }
            · next pending waiting =>
                constructor
                case rows =>
                  apply setHeld _ _ (setHeld _ next held.rows holds)
                  rw [type_foldl_replayOrphan]
                  · exact holds
                  · intro orphan member
                    rw [Replica.survivors, mem_sortBy, List.mem_filter] at member
                    exact held.orphans _ pending waiting orphan member.1
                case orphans =>
                  exact fun id pending found => held.orphans id pending (get?_of_erase found)
          · exact { held with rows := setHeld _ next held.rows holds }

theorem Base.Held.ingest {base : Base V} (held : base.Held options) (action : Action V)
    (delta : List (Update V)) (position : Nat) :
    (base.ingest options action delta position).Held options := by
  rw [Base.ingest]
  induction delta generalizing base with
  | nil => exact held
  | cons update rest induction => exact induction (held.fold update _ _ _)

theorem Unopened.folded (unopened : Unopened replica) (action : Action V)
    (delta : List (Update V)) (position : Nat) :
    Unopened (replica.folded options action delta position) ∧
      (replica.folded options action delta position).base =
        replica.base.ingest options action delta position ∧
      (replica.folded options action delta position).overlay =
        (replica.dropOverlay action.id).overlay ∧
      (replica.folded options action delta position).effective = replica.effective := by
  have general : ∀ (delta : List (Update V)) (start : LiveReplica V), Unopened start →
      Unopened (delta.foldl (fun replica update =>
        replica.foldBase options update action.gsn action.hlc position) start) ∧
      (delta.foldl (fun replica update =>
        replica.foldBase options update action.gsn action.hlc position) start).base =
          start.base.ingest options action delta position ∧
      (delta.foldl (fun replica update =>
        replica.foldBase options update action.gsn action.hlc position) start).overlay =
          start.overlay ∧
      (delta.foldl (fun replica update =>
        replica.foldBase options update action.gsn action.hlc position) start).effective =
          start.effective := by
    intro delta
    induction delta with
    | nil => exact fun start unopened => ⟨unopened, rfl, rfl, rfl⟩
    | cons update rest induction =>
        intro start unopened
        have one := @Unopened.foldBase V options start unopened update action.gsn action.hlc position
        rcases induction _ one.1 with ⟨later, base, overlay, effective⟩
        refine ⟨later, ?_, overlay.trans one.2.2.1, effective.trans one.2.2.2⟩
        rw [List.foldl_cons, base, one.2.1]
        rfl
  have start : Unopened (replica.dropOverlay action.id) :=
    { pins := unopened.pins, reads := unopened.reads }
  rcases general delta _ start with ⟨later, base, overlay, effective⟩
  exact ⟨{ pins := later.pins, reads := later.reads }, base, overlay, effective⟩

theorem get?_folded {action : Action V} {delta : List (Update V)} {id : String}
    (untouched : id ∉ delta.map Update.subjectId) (position : Nat) :
    (replica.folded options action delta position).entities.get? id = replica.entities.get? id := by
  have general : ∀ (delta : List (Update V)) (start : LiveReplica V),
      id ∉ delta.map Update.subjectId →
        (delta.foldl (fun replica update =>
          replica.foldBase options update action.gsn action.hlc position) start).entities.get? id =
            start.entities.get? id := by
    intro delta
    induction delta with
    | nil => exact fun _ _ => rfl
    | cons update rest induction =>
        intro start outside
        rw [List.map_cons, List.mem_cons, not_or] at outside
        rcases @foldBase_eq V options start update action.gsn action.hlc position with
          ⟨_, _, _, _, equal, others⟩
        rw [List.foldl_cons, induction _ outside.2, equal]
        exact others id outside.1
  exact general delta (replica.dropOverlay action.id) untouched

end Fold

/-! ## The views -/

section Views

variable {options : ReplicaOptions V} {replica : LiveReplica V}

/-- The view of an id is the outstanding writes over its base, where the policy holds it. -/
def Composes (options : ReplicaOptions V) (replica : LiveReplica V) (id : String) : Prop :=
  replica.viewOf id = (replica.composed id).filter fun row => options.holds row.type

theorem Unopened.recompose (unopened : Unopened replica) (id : String)
    (previous : Option (Entity V)) : Unopened (replica.recompose options id previous) where
  reads := unopened.reads
  pins := by
    change (if (replica.retained options id).all fun row => options.holds row.type then
      replica.pins.erase id else replica.pins) = .empty
    rw [unopened.pins]
    split
    · rfl
    · rfl

theorem Composes.congr {other : LiveReplica V} {id : String}
    (composes : Composes options replica id)
    (view : other.viewOf id = replica.viewOf id)
    (overlay : (other.overlay.get? id).getD [] = (replica.overlay.get? id).getD [])
    (entities : other.entities.get? id = replica.entities.get? id) : Composes options other id := by
  rw [Composes, view, composes, composed, composed, overlay, entities]

variable [DecidableEq V]

theorem Unopened.resync (unopened : Unopened replica) (held : replica.base.Held options)
    (id : String) (previous : Option (Entity V)) :
    Unopened (replica.resync options id previous) ∧
      (replica.resync options id previous).base = replica.base ∧
      (replica.resync options id previous).overlay = replica.overlay ∧
      Composes options (replica.resync options id previous) id := by
  have recomposed : Unopened (replica.recompose options id previous) :=
    unopened.recompose id previous
  have frame : Unopened (replica.resync options id previous) ∧
      (replica.resync options id previous).base = replica.base ∧
      (replica.resync options id previous).overlay = replica.overlay := by
    rcases @resync_eq V options _ replica id previous with equal | ⟨type, deleted, equal⟩
    · rw [equal]
      exact ⟨recomposed, rfl, rfl⟩
    · rcases @bump_eq V options (replica.recompose options id previous) id type deleted with
        ⟨_, _, bumped⟩
      rw [equal, bumped]
      exact ⟨{ pins := recomposed.pins, reads := recomposed.reads }, rfl, rfl⟩
  refine ⟨frame.1, frame.2.1, frame.2.2, ?_⟩
  have entities : (replica.resync options id previous).entities = replica.entities :=
    congrArg Base.entities frame.2.1
  have composed : (replica.resync options id previous).composed id = replica.composed id := by
    rw [LiveReplica.composed, LiveReplica.composed, frame.2.2, entities]
  have policy : replica.resident options = fun row => options.holds row.type :=
    funext unopened.resident
  rw [Composes, composed, viewOf_resync, viewOf_recompose, if_pos rfl]
  split
  · next bare =>
      rw [composed_of_bare replica bare]
      cases found : replica.entities.get? id with
      | none => rfl
      | some row => rw [Option.filter_some, if_pos (held.rows id row found)]
  · rw [retained, policy]

theorem Unopened.resyncAll (unopened : Unopened replica) (held : replica.base.Held options)
    (before : String → Option (Entity V)) (ids : List String)
    (others : ∀ id, id ∉ ids → Composes options replica id) :
    Unopened (resyncAll options before ids replica) ∧
      (resyncAll options before ids replica).base = replica.base ∧
      (resyncAll options before ids replica).overlay = replica.overlay ∧
      ∀ id, Composes options (resyncAll options before ids replica) id := by
  induction ids generalizing replica with
  | nil => exact ⟨unopened, rfl, rfl, fun id => others id List.not_mem_nil⟩
  | cons id rest induction =>
      rcases unopened.resync held id (before id) with ⟨one, base, overlay, composes⟩
      have later : ∀ other, other ∉ rest →
          Composes options (replica.resync options id (before id)) other := by
        intro other unlisted
        by_cases same : other = id
        · rw [same]
          exact composes
        · have outside : other ∉ id :: rest := by
            rw [List.mem_cons, not_or]
            exact ⟨same, unlisted⟩
          have entities := congrArg Base.entities base
          apply (others other outside).congr (viewOf_resync_of_ne same _)
          · rw [overlay]
          · exact congrArg (fun map => map.get? other) entities
      rcases induction one (base ▸ held) later with ⟨final, finalBase, finalOverlay, all⟩
      exact ⟨final, finalBase.trans base, finalOverlay.trans overlay, all⟩

/-- What holds of the replica after some calls on a loaded record. -/
structure Follows (options : ReplicaOptions V) (loaded : Base V) (writes : List (Write V))
    (replica : LiveReplica V) : Prop where
  unopened : Unopened replica
  held : replica.base.Held options
  base : replica.base = writes.foldl (Base.after options) loaded
  overlay : ∀ id, (replica.overlay.get? id).getD [] = outstanding id writes
  views : ∀ id, Composes options replica id

variable {loaded : Base V} {writes : List (Write V)}

theorem Follows.ingest (follows : Follows options loaded writes replica) (action : Action V)
    (delta : List (Update V)) (position : Nat) :
    Follows options loaded (writes ++ [.ingest action delta position])
      (replica.ingest options action delta position) := by
  rcases @Unopened.folded _ options _ follows.unopened action delta position with
    ⟨unopened, base, overlay, effective⟩
  have held : (replica.folded options action delta position).base.Held options := by
    rw [base]
    exact follows.held.ingest action delta position
  have others : ∀ id, id ∉ replica.touched action delta →
      Composes options (replica.folded options action delta position) id := by
    intro id untouched
    have outside : id ∉ delta.map Update.subjectId ∧ id ∉ replica.overlaidBy action.id := by
      rw [touched, List.mem_eraseDups, List.mem_append, not_or] at untouched
      exact untouched
    have entities := @get?_folded V options replica action delta id outside.1 position
    apply (follows.views id).congr
    · exact viewOf_congr (by rw [effective]) entities
    · rw [overlay, getD_dropOverlay, without_of_notMem outside.2]
    · exact entities
  rcases unopened.resyncAll held replica.viewOf (replica.touched action delta) others with
    ⟨final, finalBase, finalOverlay, views⟩
  constructor
  case unopened => exact final
  case held =>
    rw [LiveReplica.ingest, finalBase]
    exact held
  case base =>
    rw [LiveReplica.ingest, finalBase, base, List.foldl_append, ← follows.base]
    rfl
  case overlay =>
    intro id
    rw [LiveReplica.ingest, finalOverlay, overlay, getD_dropOverlay, follows.overlay, outstanding,
      outstanding, List.foldl_append]
    rfl
  case views => exact views

theorem Follows.optimistic (follows : Follows options loaded writes replica) (action : Action V) :
    Follows options loaded (writes ++ [.optimistic action]) (replica.optimistic options action) := by
  have unopened : Unopened (replica.overlaid action) :=
    { pins := follows.unopened.pins, reads := follows.unopened.reads }
  have others : ∀ id, id ∉ (action.updates.map Update.subjectId).eraseDups →
      Composes options (replica.overlaid action) id := by
    intro id untouched
    rw [List.mem_eraseDups] at untouched
    apply (follows.views id).congr
    · rfl
    · rw [getD_overlaid, writesOn_eq_nil untouched, List.append_nil]
    · rfl
  have held : (replica.overlaid action).base.Held options := follows.held
  rcases unopened.resyncAll held replica.viewOf _ others with ⟨final, base, overlay, views⟩
  constructor
  case unopened => exact final
  case held =>
    rw [LiveReplica.optimistic, base]
    exact follows.held
  case base =>
    rw [LiveReplica.optimistic, base, List.foldl_append, ← follows.base]
    rfl
  case overlay =>
    intro id
    rw [LiveReplica.optimistic, overlay, getD_overlaid, follows.overlay, outstanding, outstanding,
      List.foldl_append]
    rfl
  case views => exact views

theorem Follows.discard (follows : Follows options loaded writes replica) (actionId : String) :
    Follows options loaded (writes ++ [.discard actionId]) (replica.discard options actionId) := by
  have unopened : Unopened (replica.dropOverlay actionId) :=
    { pins := follows.unopened.pins, reads := follows.unopened.reads }
  have others : ∀ id, id ∉ replica.overlaidBy actionId →
      Composes options (replica.dropOverlay actionId) id := by
    intro id untouched
    apply (follows.views id).congr
    · rfl
    · rw [getD_dropOverlay, without_of_notMem untouched]
    · rfl
  have held : (replica.dropOverlay actionId).base.Held options := follows.held
  rcases unopened.resyncAll held replica.viewOf _ others with ⟨final, base, overlay, views⟩
  constructor
  case unopened => exact final
  case held =>
    rw [LiveReplica.discard, base]
    exact follows.held
  case base =>
    rw [LiveReplica.discard, base, List.foldl_append, ← follows.base]
    rfl
  case overlay =>
    intro id
    rw [LiveReplica.discard, overlay, getD_dropOverlay, follows.overlay, outstanding, outstanding,
      List.foldl_append]
    rfl
  case views => exact views

omit [DecidableEq V] in
theorem load_spec (options : ReplicaOptions V) (replica : LiveReplica V) {record : ReplicaRecord V}
    (valid : record.format = replicaRecordFormat) :
    Unopened (replica.load options record) ∧
      (replica.load options record).overlay = .empty ∧
      (replica.load options record).effective = .empty ∧
      (replica.load options record).base.Held options := by
  have general : ∀ (rows : List (Entity V)) (start : LiveReplica V), Unopened start →
      start.overlay = .empty → start.effective = .empty → start.base.Held options →
        Unopened (rows.foldl (loadRow options) start) ∧
          (rows.foldl (loadRow options) start).overlay = .empty ∧
          (rows.foldl (loadRow options) start).effective = .empty ∧
          (rows.foldl (loadRow options) start).base.Held options := by
    intro rows
    induction rows with
    | nil => exact fun start unopened overlay effective held => ⟨unopened, overlay, effective, held⟩
    | cons row rest induction =>
        intro start unopened overlay effective held
        rw [List.foldl_cons, loadRow]
        split
        · next holds =>
            apply induction
            · exact { pins := unopened.pins, reads := unopened.reads }
            · exact overlay
            · exact effective
            · refine { held with rows := ?_ }
              intro id current found
              change (start.entities.set row.id row).get? id = some current at found
              rw [OrderedMap.get?_set] at found
              split at found
              · cases found
                exact holds
              · exact held.rows id current found
        · exact induction start unopened overlay effective held
  rw [load, if_neg (fun invalid => invalid valid)]
  apply general
  · exact { pins := rfl, reads := rfl }
  · rfl
  · rfl
  · exact { rows := by rintro _ _ ⟨⟩, orphans := by rintro _ _ ⟨⟩ }

omit [DecidableEq V] in
theorem follows_load (options : ReplicaOptions V) (replica : LiveReplica V)
    {record : ReplicaRecord V} (valid : record.format = replicaRecordFormat) :
    Follows options (replica.load options record).base [] (replica.load options record) := by
  rcases load_spec options replica valid with ⟨unopened, overlay, effective, held⟩
  have bare : ∀ id, ((replica.load options record).overlay.get? id).getD [] = [] := by
    intro id
    rw [overlay]
    rfl
  constructor
  case unopened => exact unopened
  case held => exact held
  case base => rfl
  case overlay => exact bare
  case views =>
    intro id
    rw [Composes, composed_of_bare _ (bare id), viewOf, effective, OrderedMap.get?_empty]
    cases found : (replica.load options record).entities.get? id with
    | none => rfl
    | some row => rw [Option.filter_some, if_pos (held.rows id row found)]

theorem Follows.written (follows : Follows options loaded [] replica) (writes : List (Write V)) :
    Follows options loaded writes (replica.written options writes) := by
  have general : ∀ (after before : List (Write V)) (current : LiveReplica V),
      Follows options loaded before current →
        Follows options loaded (before ++ after) (current.written options after) := by
    intro after
    induction after with
    | nil =>
        intro before current follows
        rw [List.append_nil]
        exact follows
    | cons write rest induction =>
        intro before current follows
        rw [List.append_cons]
        apply induction
        cases write with
        | ingest action delta position => exact follows.ingest action delta position
        | optimistic action => exact follows.optimistic action
        | discard actionId => exact follows.discard actionId
  exact general writes [] replica follows

/-! ## Submissions that end -/

omit [DecidableEq V] in
theorem without_writesOn (actionId id : String) (action : Action V) :
    without actionId (writesOn id action) =
      if action.id = actionId then [] else writesOn id action := by
  rw [without, writesOn]
  split
  · next same =>
      rw [List.filter_eq_nil_iff]
      intro write member
      rcases List.mem_map.mp member with ⟨update, _, rfl⟩
      simp [same]
  · next different =>
      rw [List.filter_eq_self]
      intro write member
      rcases List.mem_map.mp member with ⟨update, _, rfl⟩
      simp [different]

omit [DecidableEq V] in
theorem without_swap (left right : String) (writes : List (OptimisticWrite V)) :
    without left (without right writes) = without right (without left writes) := by
  rw [without, without, without, without, List.filter_filter, List.filter_filter]
  simp only [Bool.and_comm]

omit [DecidableEq V] in
theorem without_outstanding (actionId id : String) (writes : List (Write V)) :
    without actionId (outstanding id writes) =
      outstanding id (withoutSubmissions actionId writes) := by
  have general : ∀ (writes : List (Write V)) (start : List (OptimisticWrite V)),
      without actionId (writes.foldl (outstandingAfter id) start) =
        (withoutSubmissions actionId writes).foldl (outstandingAfter id)
          (without actionId start) := by
    intro writes
    induction writes with
    | nil => exact fun _ => rfl
    | cons write rest induction =>
        intro start
        rw [List.foldl_cons, induction]
        change _ = ((write :: rest).filter fun write => !write.submits actionId).foldl
          (outstandingAfter id) (without actionId start)
        rw [List.filter_cons]
        cases write with
        | ingest action delta position =>
            rw [outstandingAfter, without_swap]
            rfl
        | discard other =>
            rw [outstandingAfter, without_swap]
            rfl
        | optimistic action =>
            rw [outstandingAfter, without, List.filter_append, ← without, ← without,
              without_writesOn, Write.submits]
            by_cases same : action.id = actionId
            · rw [if_pos same, List.append_nil, if_neg (by simp [same])]
              rfl
            · rw [if_neg same, if_pos (by simp [same])]
              rfl
  exact general writes []

omit [DecidableEq V] in
theorem foldl_after_filter {keep : Write V → Bool} (kept : ∀ write : Write V,
    write.ingests = true → keep write = true) (writes : List (Write V)) (base : Base V) :
    (writes.filter keep).foldl (Base.after options) base =
      writes.foldl (Base.after options) base := by
  induction writes generalizing base with
  | nil => rfl
  | cons write rest induction =>
      rw [List.filter_cons]
      split
      · exact induction _
      · next dropped =>
          rw [induction, List.foldl_cons]
          cases write with
          | ingest => exact absurd (kept _ rfl) dropped
          | discard => rfl
          | optimistic => rfl

omit [DecidableEq V] in
theorem foldl_after_withoutSubmissions (actionId : String) (writes : List (Write V))
    (base : Base V) :
    (withoutSubmissions actionId writes).foldl (Base.after options) base =
      writes.foldl (Base.after options) base := by
  apply foldl_after_filter
  intro write ingests
  cases write with
  | ingest => rfl
  | discard => cases ingests
  | optimistic => cases ingests

omit [DecidableEq V] in
theorem Follows.viewOf_eq (follows : Follows options loaded writes replica) (id : String) :
    replica.viewOf id =
      (overBase (outstanding id writes) ((writes.foldl (Base.after options) loaded).entities.get? id)).filter
        fun row => options.holds row.type := by
  have composes := follows.views id
  rw [Composes, composed, follows.overlay] at composes
  rw [composes, ← follows.base]
  rfl

/-- The views on a loaded record are the outstanding optimistic writes, in the order of their
submission, over base rows that only the log moves; a submission that was discarded leaves
no trace in them, and one that was echoed leaves what its echo alone leaves. -/
theorem overlay_algebra (options : ReplicaOptions V) (replica : LiveReplica V)
    {record : ReplicaRecord V} (valid : record.format = replicaRecordFormat) :
    (∀ writes id,
      ((replica.load options record).written options writes).viewOf id =
        (overBase (outstanding id writes)
          (((replica.load options record).written options writes).entities.get? id)).filter
            (fun row => options.holds row.type) ∧
      ((replica.load options record).written options writes).entities =
        ((replica.load options record).written options (writes.filter Write.ingests)).entities) ∧
    (∀ before after actionId id,
      ((replica.load options record).written options
        (before ++ .discard actionId :: after)).viewOf id =
      ((replica.load options record).written options
        (withoutSubmissions actionId before ++ after)).viewOf id) ∧
    (∀ before after action delta position id,
      ((replica.load options record).written options
        (before ++ .ingest action delta position :: after)).viewOf id =
      ((replica.load options record).written options
        (withoutSubmissions action.id before ++ .ingest action delta position :: after)).viewOf
          id) := by
  have follows := fun writes => (follows_load options replica valid).written writes
  refine ⟨fun writes id => ⟨?_, ?_⟩, ?_, ?_⟩
  · have composes := (follows writes).views id
    rw [Composes, composed, (follows writes).overlay] at composes
    exact composes
  · have here := (follows writes).base
    have ingested := (follows (writes.filter Write.ingests)).base
    rw [foldl_after_filter fun _ ingests => ingests, ← here] at ingested
    exact congrArg Base.entities ingested.symm
  · intro before after actionId id
    rw [(follows _).viewOf_eq, (follows _).viewOf_eq]
    have same : outstanding id (before ++ .discard actionId :: after) =
        outstanding id (withoutSubmissions actionId before ++ after) := by
      rw [outstanding, outstanding, List.foldl_append, List.foldl_append, List.foldl_cons,
        ← outstanding, ← outstanding, ← without_outstanding]
      rfl
    have sameBase : (before ++ .discard actionId :: after).foldl (Base.after options)
          (replica.load options record).base =
        (withoutSubmissions actionId before ++ after).foldl (Base.after options)
          (replica.load options record).base := by
      rw [List.foldl_append, List.foldl_append, foldl_after_withoutSubmissions]
      rfl
    rw [same, sameBase]
  · intro before after action delta position id
    rw [(follows _).viewOf_eq, (follows _).viewOf_eq]
    have same : outstanding id (before ++ .ingest action delta position :: after) =
        outstanding id (withoutSubmissions action.id before ++
          .ingest action delta position :: after) := by
      rw [outstanding, outstanding, List.foldl_append, List.foldl_append, List.foldl_cons,
        List.foldl_cons, ← outstanding, ← outstanding, ← without_outstanding, outstandingAfter,
        outstandingAfter, without_idem]
    rw [same, List.foldl_append, List.foldl_append, foldl_after_withoutSubmissions]

end Views

def loadedEmpty : LiveReplica Nat :=
  empty.load (holdsAllBut "cold")
    { format := replicaRecordFormat, position := 0, revision := 0, entities := [] }

theorem overlay_of_echo :
    (loadedEmpty.written (holdsAllBut "cold") [.optimistic (putTitle "todo" 0)]).viewOf "row_1" ≠
        none ∧
      (loadedEmpty.written (holdsAllBut "cold") [.optimistic (putTitle "todo" 0),
        .ingest (putTitle "todo" 0) (putTitle "todo" 0).updates 1]).viewOf "row_1" =
      (loadedEmpty.written (holdsAllBut "cold")
        [.ingest (putTitle "todo" 0) (putTitle "todo" 0).updates 1]).viewOf "row_1" := by
  have valid : @ReplicaRecord.format Nat
      { format := replicaRecordFormat, position := 0, revision := 0, entities := [] } =
        replicaRecordFormat := rfl
  refine ⟨nofun, ?_⟩
  exact (overlay_algebra (holdsAllBut "cold") empty valid).2.2 [.optimistic (putTitle "todo" 0)] []
    (putTitle "todo" 0) (putTitle "todo" 0).updates 1 "row_1"

end Ebb.Storage.LiveReplica
