import Ebb.Storage.ChangeJournal
import Ebb.Storage.TypeIndex

namespace Ebb.Storage.LiveReplica

/-! The relationship indices of the replica: both directions hold the entries of the
views as long as every resync leaves a view that may stay. -/

variable {options : ReplicaOptions V} {replica : LiveReplica V}

/-! ## The entries of one row -/

/-- Both directions hold a row's entries under an id. -/
def IndexedAt (options : ReplicaOptions V) (replica : LiveReplica V) (id : String)
    (row : Option (Entity V)) : Prop :=
  ReverseIndex.Indexes replica.reverseIndex (indexEntryFor options.asString) id row ∧
    ReverseIndex.Indexes replica.forwardIndex (forwardIndexEntryFor options.asString) id row

def Named (id : String) (row : Option (Entity V)) : Prop := ∀ entity ∈ row, entity.id = id

theorem IndexedAt.congr {other : LiveReplica V} {id : String} {row : Option (Entity V)}
    (indexed : IndexedAt options replica id row)
    (reverse : other.reverseIndex = replica.reverseIndex)
    (forward : other.forwardIndex = replica.forwardIndex) : IndexedAt options other id row := by
  rw [IndexedAt, reverse, forward]
  exact indexed

theorem IndexedAt.of_entries {id : String} {row other : Option (Entity V)}
    (indexed : IndexedAt options replica id row)
    (reverse : other.bind (indexEntryFor options.asString) =
      row.bind (indexEntryFor options.asString))
    (forward : other.bind (forwardIndexEntryFor options.asString) =
      row.bind (forwardIndexEntryFor options.asString)) : IndexedAt options replica id other := by
  constructor
  · intro key value
    rw [reverse]
    exact indexed.1 key value
  · intro key value
    rw [forward]
    exact indexed.2 key value

theorem rowId_of_named {id : String} {row : Option (Entity V)} (named : Named id row)
    {asString : V → Option String} :
    (∀ entry, row.bind (indexEntryFor asString) = some entry → entry.rowId = id) ∧
      ∀ entry, row.bind (forwardIndexEntryFor asString) = some entry → entry.rowId = id := by
  constructor
  · intro entry found
    rcases Option.bind_eq_some_iff.mp found with ⟨entity, held, found⟩
    rw [rowId_indexEntryFor asString found, named entity held]
  · intro entry found
    rcases Option.bind_eq_some_iff.mp found with ⟨entity, held, found⟩
    rw [rowId_forwardIndexEntryFor asString found, named entity held]

theorem IndexedAt.reconciled {id : String} {previous next : Option (Entity V)}
    (indexed : IndexedAt options replica id previous) (previousNamed : Named id previous)
    (nextNamed : Named id next) :
    IndexedAt options (replica.reconcileIndex options previous next) id next :=
  ⟨indexed.1.applied (rowId_of_named previousNamed).1 (rowId_of_named nextNamed).1,
    indexed.2.applied (rowId_of_named previousNamed).2 (rowId_of_named nextNamed).2⟩

theorem IndexedAt.beside {id changed : String} {row previous next : Option (Entity V)}
    (indexed : IndexedAt options replica id row) (different : id ≠ changed)
    (previousNamed : Named changed previous) (nextNamed : Named changed next) :
    IndexedAt options (replica.reconcileIndex options previous next) id row :=
  ⟨indexed.1.other different (rowId_of_named previousNamed).1 (rowId_of_named nextNamed).1,
    indexed.2.other different (rowId_of_named previousNamed).2 (rowId_of_named nextNamed).2⟩

/-! ## The entries of every view -/

/-- Both directions hold the entries of every view, and those of the views before the
call for the ids it has still to resync. -/
def IndexedExcept (options : ReplicaOptions V) (todo : List String)
    (before : String → Option (Entity V)) (replica : LiveReplica V) : Prop :=
  ∀ id, IndexedAt options replica id (if id ∈ todo then before id else replica.viewOf id)

def Indexed (options : ReplicaOptions V) (replica : LiveReplica V) : Prop :=
  ∀ id, IndexedAt options replica id (replica.viewOf id)

theorem indexed_empty : Indexed options (empty : LiveReplica V) := by
  intro id
  constructor
  · intro key value
    constructor
    · exact nofun
    · rintro ⟨_, absent, _⟩
      cases absent
  · intro key value
    constructor
    · exact nofun
    · rintro ⟨_, absent, _⟩
      cases absent

theorem indexedExcept_nil {before : String → Option (Entity V)} :
    IndexedExcept options [] before replica ↔ Indexed options replica := by
  constructor
  · exact fun indexed id => indexed id
  · exact fun indexed id => indexed id

variable {todo : List String} {before : String → Option (Entity V)}

theorem IndexedExcept.congr {other : LiveReplica V}
    (indexed : IndexedExcept options todo before replica)
    (reverse : other.reverseIndex = replica.reverseIndex)
    (forward : other.forwardIndex = replica.forwardIndex)
    (views : ∀ id, id ∉ todo → other.viewOf id = replica.viewOf id) :
    IndexedExcept options todo before other := by
  intro id
  have here := (indexed id).congr reverse forward
  split
  · next listed =>
      rw [if_pos listed] at here
      exact here
  · next unlisted =>
      rw [if_neg unlisted] at here
      rw [views id unlisted]
      exact here

theorem Indexed.except {other : LiveReplica V} (indexed : Indexed options replica)
    (reverse : other.reverseIndex = replica.reverseIndex)
    (forward : other.forwardIndex = replica.forwardIndex)
    (views : ∀ id, id ∉ todo → other.viewOf id = replica.viewOf id) :
    IndexedExcept options todo replica.viewOf other := by
  have all : IndexedExcept options todo replica.viewOf replica := by
    intro id
    rw [ite_self]
    exact indexed id
  exact all.congr reverse forward views

/-! ## Resyncing -/

/-- The base of an id with no writes over it may stay, or has no entries. -/
def RestsAt (options : ReplicaOptions V) (replica : LiveReplica V) (id : String) : Prop :=
  (replica.overlay.get? id).getD [] = [] → ∀ base, replica.entities.get? id = some base →
    replica.resident options base = true ∨ indexEntryFor options.asString base = none ∧
      forwardIndexEntryFor options.asString base = none

section Resync

variable {P : Fields V → Prop}
  (closed : ∀ existing incoming, P existing → P incoming → P (mergeEntries existing incoming))

theorem Kept.named (kept : Kept P replica) (id : String) : Named id (replica.viewOf id) :=
  fun entity found => (kept.viewOf id entity found).1

include closed

omit closed in
theorem entries_of_rests {id : String} (rests : RestsAt options replica id)
    (previous : Option (Entity V)) (entryFor : Entity V → Option IndexEntry)
    (either : entryFor = indexEntryFor options.asString ∨
      entryFor = forwardIndexEntryFor options.asString) :
    ((replica.recompose options id previous).viewOf id).bind entryFor =
      (replica.retained options id).bind entryFor := by
  rw [viewOf_recompose, if_pos rfl]
  split
  · next bare =>
      rw [retained, composed_of_bare replica bare]
      cases held : replica.entities.get? id with
      | none => rfl
      | some base =>
          rw [Option.filter_some]
          split
          · rfl
          · next leaves =>
              rcases rests bare base held with stays | ⟨reverse, forward⟩
              · exact absurd stays leaves
              · rcases either with rfl | rfl
                · exact reverse
                · exact forward
  · rfl

theorem IndexedExcept.recompose {id : String} {rest : List String} (fresh : id ∉ rest)
    (indexed : IndexedExcept options (id :: rest) before replica) (kept : Kept P replica)
    (named : Named id (before id)) (rests : RestsAt options replica id) :
    IndexedExcept options rest before (replica.recompose options id (before id)) := by
  have retainedNamed : Named id (replica.retained options id) := fun entity found =>
    (kept.retained closed id entity found).1
  intro other
  by_cases same : other = id
  · rw [same, if_neg fresh]
    have here := indexed id
    rw [if_pos List.mem_cons_self] at here
    have moved : IndexedAt options (replica.recompose options id (before id)) id
        (replica.retained options id) := here.reconciled named retainedNamed
    exact moved.of_entries (entries_of_rests rests _ _ (.inl rfl))
      (entries_of_rests rests _ _ (.inr rfl))
  · have there : IndexedAt options (replica.recompose options id (before id)) other _ :=
      (indexed other).beside same named retainedNamed
    rw [viewOf_recompose, if_neg same]
    simp only [List.mem_cons, same, false_or] at there
    exact there

variable [DecidableEq V]

theorem IndexedExcept.resync {id : String} {rest : List String} (fresh : id ∉ rest)
    (indexed : IndexedExcept options (id :: rest) before replica) (kept : Kept P replica)
    (named : Named id (before id)) (rests : RestsAt options replica id) :
    IndexedExcept options rest before (replica.resync options id (before id)) := by
  have recomposed := indexed.recompose closed fresh kept named rests
  rcases @resync_eq V options _ replica id (before id) with equal | ⟨type, deleted, equal⟩
  · rw [equal]
    exact recomposed
  · rcases @bump_eq V options (replica.recompose options id (before id)) id type deleted with
      ⟨_, _, bumped⟩
    rw [equal, bumped]
    exact recomposed.congr rfl rfl fun _ _ => rfl

omit closed in
theorem restsAt_resync {id other : String} (different : other ≠ id) (kept : Kept P replica)
    (previous : Option (Entity V)) (rests : RestsAt options replica other) :
    RestsAt options (replica.resync options id previous) other := by
  have frame := @resync_frame V options _ replica id previous
  intro bare base held
  rw [frame.2.1] at bare
  rw [frame.1] at held
  rcases rests bare base held with stays | bare
  · left
    rw [resident, (kept.entities other base held).1] at stays ⊢
    rw [frame.2.2.2 other different]
    exact stays
  · exact .inr bare

theorem IndexedExcept.resyncAll {ids : List String} (nodup : ids.Nodup)
    (indexed : IndexedExcept options ids before replica) (kept : Kept P replica)
    (named : ∀ id, Named id (before id)) (rests : ∀ id ∈ ids, RestsAt options replica id) :
    Indexed options (resyncAll options before ids replica) := by
  induction ids generalizing replica with
  | nil => exact indexedExcept_nil.mp indexed
  | cons id rest induction =>
      have parts := List.nodup_cons.mp nodup
      have one := indexed.resync closed parts.1 kept (named id) (rests id List.mem_cons_self)
      apply induction parts.2 one (kept.resync closed id (before id))
      intro other member
      have different : other ≠ id := by
        rintro rfl
        exact parts.1 member
      exact restsAt_resync different kept _ (rests other (List.mem_cons_of_mem _ member))

end Resync

/-! ## Eviction -/

section Evict

variable {P : Fields V → Prop}

theorem IndexedExcept.forget {id : String} (fresh : id ∉ todo)
    (indexed : IndexedExcept options todo before replica) (kept : Kept P replica) :
    IndexedExcept options todo before (replica.forget options id) := by
  have absent : Named id (none : Option (Entity V)) := nofun
  have reconciled : ∀ other row, IndexedAt options
      (replica.reconcileIndex options (replica.viewOf id) none) other row →
        IndexedAt options (replica.forget options id) other row := by
    intro other row here
    rcases @cancelOpen_eq V replica id with ⟨_, _, _, _, equal⟩
    rw [LiveReplica.forget, equal]
    exact here
  intro other
  rw [viewOf_forget]
  apply reconciled
  by_cases same : other = id
  · rw [same, if_neg fresh, if_pos rfl]
    have here := indexed id
    rw [if_neg fresh] at here
    exact here.reconciled (kept.named id) absent
  · rw [if_neg same]
    exact (indexed other).beside same (kept.named id) absent

theorem IndexedExcept.evict {ids : List String} (fresh : ∀ id ∈ ids, id ∉ todo)
    (indexed : IndexedExcept options todo before replica) (kept : Kept P replica) :
    IndexedExcept options todo before (replica.evict options ids) := by
  have general : ∀ (ids : List String) (start : LiveReplica V), (∀ id ∈ ids, id ∉ todo) →
      IndexedExcept options todo before start → Kept P start →
        IndexedExcept options todo before (ids.foldl (evictOne options) start) := by
    intro ids
    induction ids with
    | nil => exact fun _ _ indexed _ => indexed
    | cons id rest induction =>
        intro start fresh indexed kept
        apply induction _ (fun other member => fresh other (List.mem_cons_of_mem _ member)) ?_
          (kept.evictOne id)
        have forgotten := indexed.forget (fresh id List.mem_cons_self) kept
        rw [evictOne]
        split
        · exact forgotten
        · rcases @bump_eq V options (start.forget options id) id _ true with ⟨_, _, bumped⟩
          rw [bumped]
          exact forgotten.congr rfl rfl fun _ _ => rfl
  exact general _ _ (fun id member => fresh id (List.mem_eraseDups.mp member)) indexed kept

theorem Indexed.evict (indexed : Indexed options replica) (kept : Kept P replica)
    (ids : List String) : Indexed options (replica.evict options ids) := by
  have all : IndexedExcept options [] replica.viewOf replica := indexedExcept_nil.mpr indexed
  exact indexedExcept_nil.mp (all.evict (fun _ _ => List.not_mem_nil) kept)

/-! ## Residency -/

theorem Indexed.congr {other : LiveReplica V} (indexed : Indexed options replica)
    (reverse : other.reverseIndex = replica.reverseIndex)
    (forward : other.forwardIndex = replica.forwardIndex)
    (views : ∀ id, other.viewOf id = replica.viewOf id) : Indexed options other := by
  intro id
  rw [views]
  exact (indexed id).congr reverse forward

theorem not_doomed (pins : OrderedMap String Pin) (id : String) :
    id ∉ (match options.pinnedCapacity with
      | none => []
      | some capacity => ((pins.erase id).set id { isOpen := true, timer := false }).keys.take
          (((pins.erase id).set id { isOpen := true, timer := false }).keys.length - capacity)) := by
  split
  · exact List.not_mem_nil
  · next capacity bounded =>
      have positive := options.pinnedPositive capacity bounded
      have absent : (pins.erase id).get? id = none := by rw [OrderedMap.get?_erase, if_pos rfl]
      have listed : ((pins.erase id).set id { isOpen := true, timer := false }).keys =
          (pins.erase id).keys ++ [id] := by
        rw [OrderedMap.keys, OrderedMap.entries_set_of_absent absent, List.map_append]
        rfl
      have unlisted : id ∉ (pins.erase id).keys := by
        rw [OrderedMap.mem_keys_iff]
        rintro ⟨pin, found⟩
        rw [absent] at found
        cases found
      rw [listed, List.length_append, List.take_append_of_le_length]
      · exact fun member => unlisted (List.mem_of_mem_take member)
      · rw [List.length_singleton]
        omega

theorem IndexedExcept.withPins (indexed : IndexedExcept options todo before replica)
    (pins : OrderedMap String Pin) :
    IndexedExcept options todo before { replica with pins := pins } :=
  indexed.congr rfl rfl fun _ _ => rfl

theorem Indexed.withPins (indexed : Indexed options replica) (pins : OrderedMap String Pin) :
    Indexed options { replica with pins := pins } :=
  indexed.congr rfl rfl fun _ => rfl

theorem Kept.withPins (kept : Kept P replica) (pins : OrderedMap String Pin) :
    Kept P { replica with pins := pins } :=
  { kept with }

theorem IndexedExcept.openPin {id : String}
    (indexed : IndexedExcept options [id] before replica) (kept : Kept P replica) :
    IndexedExcept options [id] before (replica.openPin options id) := by
  rw [LiveReplica.openPin]
  apply IndexedExcept.evict ?_ (indexed.withPins _) (kept.withPins _)
  intro other member listed
  rw [List.mem_singleton.mp listed] at member
  exact not_doomed replica.pins id member

section

variable (indexed : Indexed options replica)
include indexed

theorem Indexed.openPin (kept : Kept P replica) (id : String) :
    Indexed options (replica.openPin options id) :=
  (indexed.withPins _).evict (kept.withPins _) _

theorem Indexed.cancelOpen (id : String) : Indexed options (replica.cancelOpen id) := by
  rcases @cancelOpen_eq V replica id with ⟨_, _, _, _, equal⟩
  rw [equal]
  exact indexed.congr rfl rfl fun _ => rfl

theorem Indexed.closePin (kept : Kept P replica) (id : String)
    : Indexed options (replica.closePin options id) := by
  rw [LiveReplica.closePin]
  split
  · exact indexed
  · split
    · exact indexed
    · split
      · exact indexed.withPins _
      · exact (indexed.withPins _).evict (kept.withPins _) [id]

theorem Indexed.close (kept : Kept P replica) (id : String) :
    Indexed options (replica.close options id) := by
  rw [LiveReplica.close]
  split
  · exact indexed.cancelOpen id
  · split
    · exact indexed
    · dsimp only
      split
      · exact (indexed.cancelOpen id).closePin (kept.cancelOpen id) id
      · exact (indexed.cancelOpen id).evict (kept.cancelOpen id) [id]

theorem Indexed.openRow (kept : Kept P replica) (id : String) :
    Indexed options (replica.openRow options id) := by
  rw [LiveReplica.openRow]
  split
  · split
    · exact indexed
    · exact indexed.openPin kept id
  · split
    · exact indexed
    · exact indexed.congr rfl rfl fun _ => rfl

end

end Evict

/-! ## A cold read -/

section Install

variable {P : Fields V → Prop}

theorem get?_pins_evict {ids : List String} {id : String} (outside : id ∉ ids) :
    (replica.evict options ids).pins.get? id = replica.pins.get? id := by
  have general : ∀ (ids : List String) (start : LiveReplica V), id ∉ ids →
      (ids.foldl (evictOne options) start).pins.get? id = start.pins.get? id := by
    intro ids
    induction ids with
    | nil => exact fun _ _ => rfl
    | cons other rest induction =>
        intro start outside
        rw [List.mem_cons, not_or] at outside
        have forgotten : (start.forget options other).pins.get? id = start.pins.get? id := by
          rcases @cancelOpen_eq V start other with ⟨_, _, _, _, equal⟩
          rw [forget, equal]
          exact (OrderedMap.get?_erase _ _ _).trans (if_neg outside.1)
        rw [List.foldl_cons, induction _ outside.2, evictOne]
        split
        · exact forgotten
        · rcases @bump_eq V options (start.forget options other) other _ true with ⟨_, _, bumped⟩
          rw [bumped]
          exact forgotten
  exact general _ _ fun member => outside (List.mem_eraseDups.mp member)

theorem isSome_pins_openPin (replica : LiveReplica V) (id : String) :
    ((replica.openPin options id).pins.get? id).isSome := by
  rw [openPin, get?_pins_evict]
  · rw [OrderedMap.get?_set_self]
    rfl
  · exact not_doomed replica.pins id

theorem pins_foldl_foldBase {γ : Type} (updateOf : γ → Update V) (gsn : γ → Nat)
    (hlc : γ → HLCTimestamp) (position : γ → Nat) (folds : List γ) :
    (folds.foldl (fun replica fold => replica.foldBase options (updateOf fold) (gsn fold)
      (hlc fold) (position fold)) replica).pins = replica.pins := by
  induction folds generalizing replica with
  | nil => rfl
  | cons fold rest induction =>
      rcases @foldBase_eq V options replica (updateOf fold) (gsn fold) (hlc fold) (position fold)
        with ⟨_, _, _, _, equal, _⟩
      rw [List.foldl_cons, induction, equal]

theorem IndexedExcept.foldl_foldBase {γ : Type} (updateOf : γ → Update V) (gsn : γ → Nat)
    (hlc : γ → HLCTimestamp) (position : γ → Nat) {folds : List γ}
    (indexed : IndexedExcept options todo before replica)
    (listed : ∀ fold ∈ folds, (updateOf fold).subjectId ∈ todo) :
    IndexedExcept options todo before (folds.foldl (fun replica fold =>
      replica.foldBase options (updateOf fold) (gsn fold) (hlc fold) (position fold)) replica) := by
  induction folds generalizing replica with
  | nil => exact indexed
  | cons fold rest induction =>
      apply induction ?_ fun other member => listed other (List.mem_cons_of_mem _ member)
      rcases @foldBase_eq V options replica (updateOf fold) (gsn fold) (hlc fold) (position fold)
        with ⟨_, _, _, _, equal, others⟩
      dsimp only
      rw [equal]
      refine indexed.congr rfl rfl ?_
      intro id outside
      have different : id ≠ (updateOf fold).subjectId := by
        rintro rfl
        exact outside (listed fold List.mem_cons_self)
      exact viewOf_congr rfl (others id different)

variable [DecidableEq V]
  (closed : ∀ existing incoming, P existing → P incoming → P (mergeEntries existing incoming))

include closed

theorem Indexed.install (indexed : Indexed options replica) (kept : Kept P replica) {id : String}
    {row : Entity V} (about : row.id = id ∧ P row.fields) {buffered : List (OrphanUpdate V)}
    (own : ∀ orphan ∈ buffered, About P id orphan.update) :
    Indexed options (replica.install options id row buffered) := by
  have entered : IndexedExcept options [id] replica.viewOf { replica with
      entities := replica.entities.set id row
      typeIndex := addToType replica.typeIndex row.type id } := by
    refine indexed.except rfl rfl fun other outside => viewOf_congr rfl ?_
    exact OrderedMap.get?_set_of_ne _ (fun same => outside (List.mem_singleton.mpr same)) _
  have enteredKept : Kept P { replica with
      entities := replica.entities.set id row
      typeIndex := addToType replica.typeIndex row.type id } :=
    { kept with entities := rowAbout_set kept.entities about }
  have pinned := @isSome_pins_openPin V options { replica with
    entities := replica.entities.set id row
    typeIndex := addToType replica.typeIndex row.type id } id
  rw [LiveReplica.install]
  generalize { replica with
    entities := replica.entities.set id row
    typeIndex := addToType replica.typeIndex row.type id } = start at entered enteredKept pinned ⊢
  have folded : IndexedExcept options [id] replica.viewOf (buffered.foldl (fun replica entry =>
      replica.foldBase options entry.update entry.gsn entry.hlc entry.position)
      (start.openPin options id)) :=
    (entered.openPin enteredKept).foldl_foldBase _ _ _ _ fun orphan member =>
      List.mem_singleton.mpr (own orphan member).1
  have foldedKept : Kept P (buffered.foldl (fun replica entry =>
      replica.foldBase options entry.update entry.gsn entry.hlc entry.position)
      (start.openPin options id)) :=
    (enteredKept.openPin id).foldl_foldBase closed _ _ _ _ fun orphan member =>
      (own orphan member).2
  apply indexedExcept_nil.mp
  apply folded.resync closed List.not_mem_nil foldedKept (kept.named id)
  intro _ base held
  left
  rw [resident, (foldedKept.entities id base held).1, pins_foldl_foldBase, pinned, Bool.or_true]

theorem Indexed.opened (indexed : Indexed options replica) (kept : Kept P replica) {id : String}
    {epoch : Nat} {loaded : Option (Entity V)} (about : RowAbout P id loaded) :
    Indexed options (replica.opened options id epoch loaded) := by
  have landed : Indexed options (replica.landed id epoch) := indexed.congr rfl rfl fun _ => rfl
  have drained : Indexed options { replica.landed id epoch with
      pendingOpens := (replica.landed id epoch).pendingOpens.erase id } :=
    indexed.congr rfl rfl fun _ => rfl
  have drainedKept : Kept P { replica.landed id epoch with
      pendingOpens := (replica.landed id epoch).pendingOpens.erase id } :=
    { kept with
      pendingOpens := fun other pending found => kept.pendingOpens other pending (get?_of_erase found) }
  rw [LiveReplica.opened]
  dsimp only
  split
  · exact landed
  · split
    · exact drained
    · split
      · exact drained
      · next row _ =>
          apply drained.install closed drainedKept (about row rfl)
          intro orphan member
          cases found : replica.pendingOpens.get? id with
          | none =>
              have empty : (replica.landed id epoch).pendingOpens.get? id = none := found
              rw [empty] at member
              cases member
          | some pending =>
              have held : (replica.landed id epoch).pendingOpens.get? id = some pending := found
              rw [held] at member
              exact kept.pendingOpens id pending found orphan member

end Install

/-! ## Loading -/

section Load

theorem loadRow_eq (replica : LiveReplica V) (row : Entity V) :
    replica.loadRow options row =
      if options.holds row.type then
        { replica.reconcileIndex options none (some row) with
          entities := replica.entities.set row.id row
          typeIndex := addToType replica.typeIndex row.type row.id }
      else replica := by
  rw [loadRow, reconcileIndex, ReverseIndex.indexDelta, ReverseIndex.indexDelta]
  simp only [Option.bind_none, Option.bind_some]
  cases indexEntryFor options.asString row with
  | none =>
      cases forwardIndexEntryFor options.asString row with
      | none => rfl
      | some _ => rfl
  | some _ =>
      cases forwardIndexEntryFor options.asString row with
      | none => rfl
      | some _ => rfl

/-- A replica that was just filled: no view but the base rows. -/
structure Filled (options : ReplicaOptions V) (replica : LiveReplica V) : Prop where
  typed : Typed replica
  indexed : Indexed options replica
  bare : ∀ id, replica.effective.get? id = none

theorem Filled.loadRow (filled : Filled options replica) {row : Entity V}
    (fresh : replica.entities.get? row.id = none) :
    Filled options (replica.loadRow options row) := by
  rw [loadRow_eq]
  split
  · have absent : replica.viewOf row.id = none := by
      rw [viewOf, filled.bare row.id]
      exact fresh
    have named : Named row.id (some row) := fun entity found => Option.some.inj found ▸ rfl
    constructor
    case typed =>
      apply TypesMatch.add filled.typed
      rw [fresh]
      rintro _ ⟨⟩
    case bare => exact filled.bare
    case indexed =>
      have moved : ∀ id, IndexedAt options (replica.reconcileIndex options none (some row)) id
          (if id = row.id then some row else replica.viewOf id) := by
        intro id
        by_cases same : id = row.id
        · rw [if_pos same, same]
          have here := filled.indexed row.id
          rw [absent] at here
          exact here.reconciled (by rintro _ ⟨⟩) named
        · rw [if_neg same]
          exact (filled.indexed id).beside same (by rintro _ ⟨⟩) named
      intro id
      have view : viewOf { replica with entities := replica.entities.set row.id row } id =
          if id = row.id then some row else replica.viewOf id := by
        rw [viewOf, viewOf, filled.bare id]
        exact OrderedMap.get?_set _ _ _ _
      have there := moved id
      rw [← view] at there
      exact there
  · exact filled

theorem get?_entities_loadRow (replica : LiveReplica V) (row : Entity V) {id : String}
    (different : options.holds row.type = true → id ≠ row.id) :
    (replica.loadRow options row).entities.get? id = replica.entities.get? id := by
  rw [loadRow]
  split
  · next held => exact OrderedMap.get?_set_of_ne _ (different held) _
  · rfl

/-- The held rows of a record, each id once. -/
def DistinctIds (options : ReplicaOptions V) (record : ReplicaRecord V) : Prop :=
  ((record.entities.filter fun row => options.holds row.type).map Entity.id).Nodup

theorem filled_load {record : ReplicaRecord V} (filled : Typed replica ∧ Indexed options replica)
    (distinct : DistinctIds options record) :
    Typed (replica.load options record) ∧ Indexed options (replica.load options record) := by
  have general : ∀ (rows : List (Entity V)) (start : LiveReplica V), Filled options start →
      ((rows.filter fun row => options.holds row.type).map Entity.id).Nodup →
      (∀ row ∈ rows, options.holds row.type = true → start.entities.get? row.id = none) →
        Filled options (rows.foldl (LiveReplica.loadRow options) start) := by
    intro rows
    induction rows with
    | nil => exact fun _ filled _ _ => filled
    | cons row rest induction =>
        intro start filled nodup fresh
        have later : ∀ other ∈ rest, options.holds other.type = true →
            (start.loadRow options row).entities.get? other.id = none := by
          intro other member held
          rw [get?_entities_loadRow]
          · exact fresh other (List.mem_cons_of_mem _ member) held
          · intro rowHeld same
            rw [List.filter_cons, if_pos rowHeld, List.map_cons, List.nodup_cons] at nodup
            apply nodup.1
            rw [← same]
            exact List.mem_map_of_mem (List.mem_filter.mpr ⟨member, held⟩)
        apply induction _ ?_ ?_ later
        · by_cases held : options.holds row.type = true
          · exact filled.loadRow (fresh row List.mem_cons_self held)
          · rw [LiveReplica.loadRow, if_neg held]
            exact filled
        · rw [List.filter_cons] at nodup
          split at nodup
          · exact (List.nodup_cons.mp nodup).2
          · exact nodup
  rw [load]
  split
  · exact filled
  · have start : Filled options { (empty : LiveReplica V) with
        nextOpenEpoch := replica.nextOpenEpoch
        reads := replica.reads
        revision := if record.revision > replica.revision then record.revision
          else replica.revision + 1
        changeFloor := if record.revision > replica.revision then record.revision
          else replica.revision + 1
        lastPosition := record.position } :=
      { typed := typesMatch_empty
        indexed := @indexed_empty V options
        bare := fun _ => rfl }
    have loaded := general record.entities _ start distinct fun _ _ _ => rfl
    exact ⟨loaded.typed, loaded.indexed⟩

end Load

/-! ## Runs -/

/-- The relationship indices hold the entries of every view, and `iterate` yields the
views of a type, each once. -/
structure Adjacent (options : ReplicaOptions V) (replica : LiveReplica V) : Prop where
  reverse : ∀ id, ReverseIndex.Indexes replica.reverseIndex (indexEntryFor options.asString) id
    (replica.viewOf id)
  forward : ∀ id, ReverseIndex.Indexes replica.forwardIndex
    (forwardIndexEntryFor options.asString) id (replica.viewOf id)
  once : ∀ type, ((replica.iterate type).map Entity.id).Nodup
  iterated : ∀ type row, row ∈ replica.iterate type ↔
    replica.viewOf row.id = some row ∧ row.type = type

/-- The conditions on the calls: a write leaves no bare base row behind that may not
stay, a cold read finds no base of another type, and a record names no id twice. -/
def Event.Orderly (options : ReplicaOptions V) (replica : LiveReplica V) : Event V → Prop
  | .load record => DistinctIds options record
  | .opened id epoch loaded => replica.openEpochs.get? id = some epoch →
      ∀ row ∈ loaded, options.holds row.type = false →
        ∀ base, replica.entities.get? id = some base → base.type = row.type
  | event => ∀ ids middle, replica.prepared options event = some (ids, middle) →
      ∀ id ∈ ids, middle.RestsAt options id

section Runs

variable {P : Fields V → Prop} [DecidableEq V]
  (closed : ∀ existing incoming, P existing → P incoming → P (mergeEntries existing incoming))

omit [DecidableEq V] in
theorem Adjacent.of_parts (kept : Kept P replica) (typed : Typed replica)
    (indexed : Indexed options replica) : Adjacent options replica where
  reverse := fun id => (indexed id).1
  forward := fun id => (indexed id).2
  once := fun type => (iterate_exact kept typed type).1
  iterated := fun type => (iterate_exact kept typed type).2

include closed

theorem Indexed.write {event : Event V} {ids : List String} {middle : LiveReplica V}
    (indexed : Indexed options replica) (kept : Kept P replica) (brings : event.Brings P)
    (call : replica.prepared options event = some (ids, middle))
    (rests : ∀ id ∈ ids, middle.RestsAt options id) :
    Indexed options (resyncAll options replica.viewOf ids middle) := by
  have entered : IndexedExcept options ids replica.viewOf middle := by
    rcases prepared_eq call with ⟨_, _, _, _, _, _, equal⟩
    refine indexed.except ?_ ?_ fun id outside => viewOf_of_prepared call outside
    · rw [equal]
    · rw [equal]
  exact entered.resyncAll closed (nodup_of_prepared call) (kept_of_prepared closed kept brings call)
    kept.named rests

theorem typed_indexed_step {event : Event V} {next : LiveReplica V} (typed : Typed replica)
    (indexed : Indexed options replica) (kept : Kept P replica) (brings : event.Brings P)
    (orderly : event.Orderly options replica) (stepped : replica.step options event = some next) :
    Typed next ∧ Indexed options next := by
  cases event with
  | ingest action delta position =>
      cases stepped
      exact ⟨(typed.folded action delta position).resyncAll _ _,
        indexed.write closed kept brings rfl (orderly _ _ rfl)⟩
  | optimistic action =>
      cases stepped
      have overlaid : Typed (replica.overlaid action) := typed
      exact ⟨overlaid.resyncAll _ _, indexed.write closed kept brings rfl (orderly _ _ rfl)⟩
  | discard actionId =>
      cases stepped
      have dropped : Typed (replica.dropOverlay actionId) := typed
      exact ⟨dropped.resyncAll _ _, indexed.write closed kept brings rfl (orderly _ _ rfl)⟩
  | evict ids =>
      cases stepped
      exact ⟨typed.evict options ids, indexed.evict kept ids⟩
  | load record =>
      cases stepped
      exact filled_load ⟨typed, indexed⟩ orderly
  | openRow id =>
      cases stepped
      exact ⟨typed.openRow id, indexed.openRow kept id⟩
  | opened id epoch loaded =>
      rw [step] at stepped
      split at stepped
      · cases stepped
        exact ⟨typed.opened orderly, indexed.opened closed kept brings⟩
      · cases stepped
  | readFailed id epoch =>
      rw [step] at stepped
      split at stepped
      · cases stepped
        exact ⟨typed, indexed.congr rfl rfl fun _ => rfl⟩
      · cases stepped
  | close id =>
      cases stepped
      exact ⟨typed.close id, indexed.close kept id⟩
  | release id =>
      rw [step] at stepped
      split at stepped
      · cases stepped
        exact ⟨typed.evict options [id], indexed.evict kept [id]⟩
      · cases stepped

end Runs

/-- In every run of orderly calls the indices and the types agree with the views. -/
theorem adjacent_of_run [DecidableEq V] {events : List (Event V)} {final : LiveReplica V}
    (brings : ∀ event ∈ events, event.Brings (fun _ => True))
    (orderly : (machine options).Meets (fun replica event => event.Orderly options replica)
      .empty events)
    (reached : (machine options).run .empty events = some final) : Adjacent options final := by
  have anyFields : ∀ existing incoming : Fields V, True → True → True := fun _ _ _ _ => trivial
  have preserved : ∀ (state : LiveReplica V) event next,
      (Kept (fun _ => True) state ∧ Typed state ∧ Indexed options state) →
      (event.Orderly options state ∧ event.Brings (fun _ => True)) →
        (machine options).step state event = some next →
          Kept (fun _ => True) next ∧ Typed next ∧ Indexed options next := by
    rintro state event next ⟨kept, typed, indexed⟩ ⟨here, brings⟩ stepped
    exact ⟨kept_step anyFields kept brings stepped,
      typed_indexed_step anyFields typed indexed kept brings here stepped⟩
  have whole := Machine.run_preserves preserved ⟨kept_empty, typed_empty, indexed_empty⟩
    (Machine.meets_and orderly brings) reached
  exact Adjacent.of_parts whole.1 whole.2.1 whole.2.2

/-! ### A relationship row opened on demand -/

def linksOnDemand : ReplicaOptions String where
  holds := fun type => type != relationshipEntityType
  journalCapacity := some 1024
  pinnedCapacity := some 64
  pinnedTtl := true
  readEntity := true
  asString := some
  journalPositive := journalPositive_default
  pinnedPositive := pinnedPositive_default

def linkField (name value : String) : String × FieldValue String :=
  (name, .leaf { value, updateId := "upd_1", hlc := some 10 })

def linkRow : Entity String where
  id := "row_1"
  type := relationshipEntityType
  fields := [linkField "field" "parent", linkField "type" "folder",
    linkField "target_id" "folder_1", linkField "source_id" "doc_1"]
  createdHlc := 10
  updatedHlc := 10
  deletedHlc := none
  lastGsn := 1

def putTodo : Action String where
  id := "act_2"
  actorId := "usr_1"
  hlc := 20
  gsn := 2
  updates := [{
    id := "upd_2"
    subjectId := "row_1"
    subjectType := "todo"
    method := .put
    data := none }]

theorem brings_linkRow : ∀ row ∈ some linkRow, row.id = "row_1" ∧ True := by
  rintro row ⟨⟩
  exact ⟨rfl, trivial⟩

def closedLink : LiveReplica String :=
  ((LiveReplica.empty.openRow linksOnDemand "row_1").opened linksOnDemand "row_1" 1
    (some linkRow)).close linksOnDemand "row_1"

theorem adjacent_closedLink : Adjacent linksOnDemand closedLink := by
  apply @adjacent_of_run String linksOnDemand _
    [.openRow "row_1", .opened "row_1" 1 (some linkRow), .close "row_1"] closedLink
  case reached => rfl
  case brings =>
    intro event member
    rcases List.mem_cons.mp member with rfl | later
    · trivial
    · rcases List.mem_cons.mp later with rfl | last
      · exact brings_linkRow
      · rw [List.mem_singleton.mp last]
        trivial
  case orderly =>
    refine ⟨fun _ _ absent => (nomatch absent), fun next opened => ?_⟩
    cases opened
    refine ⟨fun _ _ _ _ base found => (nomatch found), fun next landed => ?_⟩
    cases landed
    exact ⟨fun _ _ absent => (nomatch absent), fun _ _ => trivial⟩

/-- The row is opened, overlaid by a row of a held type, which releases its pin, and
uncovered again. -/
def uncovered : List (Event String) :=
  [.openRow "row_1", .opened "row_1" 1 (some linkRow), .optimistic putTodo, .discard "act_2"]

/-- The row of the stores lands over a base of another type. -/
def overtaken : List (Event String) :=
  [.openRow "row_1", .ingest putTodo putTodo.updates 1, .opened "row_1" 1 (some linkRow)]

/-- An uncovered row that may not stay is seen and not indexed; a row that lands over one of
another type is iterated with both types. -/
theorem adjacency_lost :
    (¬ ∀ final, (machine linksOnDemand).run .empty uncovered = some final →
      Adjacent linksOnDemand final) ∧
    ¬ ∀ final, (machine linksOnDemand).run .empty overtaken = some final →
      Adjacent linksOnDemand final := by
  constructor
  case left =>
    intro adjacent
    have missing := ((adjacent _ rfl).reverse "row_1" _ _).mpr ⟨_, rfl, rfl, rfl⟩
    revert missing
    decide
  case right =>
    intro adjacent
    have listed : linkRow ∈ [linkRow] := List.mem_cons_self
    have typed := (((adjacent _ rfl).iterated "todo" linkRow).mp listed).2
    revert typed
    decide

end Ebb.Storage.LiveReplica
