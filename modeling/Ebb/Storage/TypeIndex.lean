import Ebb.Storage.ReplicaViews

namespace Ebb.Storage.LiveReplica

/-! The ids of the base rows by type, and the rows `iterate` yields from them. -/

/-! ## Listing ids under types -/

def typeIds (types : OrderedMap String (List String)) (type : String) : List String :=
  (types.get? type).getD []

theorem nodup_concat {ids : List String} {id : String} (nodup : ids.Nodup) (fresh : id ∉ ids) :
    (ids ++ [id]).Nodup :=
  List.concat_eq_append ▸ nodup.concat fresh

theorem typeIds_addToType (types : OrderedMap String (List String)) (type id other : String) :
    typeIds (addToType types type id) other =
      if other = type then
        (if id ∈ typeIds types type then typeIds types type else typeIds types type ++ [id])
      else typeIds types other := by
  unfold typeIds addToType
  cases held : types.get? type with
  | none =>
      dsimp only
      rw [OrderedMap.get?_set]
      split
      · rfl
      · rfl
  | some ids =>
      dsimp only
      rw [OrderedMap.get?_set]
      split
      · rfl
      · rfl

theorem typeIds_removeFromType (types : OrderedMap String (List String))
    (type id other : String) :
    typeIds (removeFromType types type id) other =
      if other = type then (typeIds types type).erase id else typeIds types other := by
  unfold typeIds removeFromType
  cases held : types.get? type with
  | none =>
      dsimp only
      split
      · next same => rw [same, held]; rfl
      · rfl
  | some ids =>
      dsimp only
      split
      · next emptied =>
          rw [OrderedMap.get?_erase]
          split
          · exact emptied.symm
          · rfl
      · rw [OrderedMap.get?_set]
        split
        · rfl
        · rfl

/-- Each base row's id is listed once, under the row's type. -/
structure TypesMatch (types : OrderedMap String (List String))
    (entities : OrderedMap String (Entity V)) : Prop where
  nodup : ∀ type, (typeIds types type).Nodup
  listed : ∀ type id, id ∈ typeIds types type ↔ ∃ row, entities.get? id = some row ∧ row.type = type

theorem typesMatch_empty : TypesMatch .empty (.empty : OrderedMap String (Entity V)) where
  nodup := fun _ => List.nodup_nil
  listed := by
    intro type id
    constructor
    · exact nofun
    · rintro ⟨row, absent, _⟩
      cases absent

section TypesMatch

variable {types : OrderedMap String (List String)} {entities : OrderedMap String (Entity V)}
  {id : String}

theorem TypesMatch.add (matched : TypesMatch types entities) {row : Entity V}
    (free : ∀ base, entities.get? id = some base → base.type = row.type) :
    TypesMatch (addToType types row.type id) (entities.set id row) where
  nodup := by
    intro type
    rw [typeIds_addToType]
    split
    · split
      · exact matched.nodup row.type
      · next fresh => exact nodup_concat (matched.nodup row.type) fresh
    · exact matched.nodup type
  listed := by
    intro type other
    rw [typeIds_addToType, OrderedMap.get?_set]
    by_cases same : other = id
    · rw [if_pos same, same]
      constructor
      · intro member
        refine ⟨row, rfl, ?_⟩
        split at member
        · next here => exact here.symm
        · rcases (matched.listed type id).mp member with ⟨base, held, rfl⟩
          exact (free base held).symm
      · rintro ⟨_, ⟨⟩, rfl⟩
        rw [if_pos rfl]
        split
        · assumption
        · exact List.mem_append_right _ List.mem_cons_self
    · rw [if_neg same, ← matched.listed type other]
      split
      · next here =>
          rw [here]
          split
          · exact Iff.rfl
          · rw [List.mem_append, List.mem_singleton, or_iff_left same]
      · exact Iff.rfl

theorem TypesMatch.remove (matched : TypesMatch types entities) {row : Entity V}
    (held : entities.get? id = some row) :
    TypesMatch (removeFromType types row.type id) (entities.erase id) where
  nodup := by
    intro type
    rw [typeIds_removeFromType]
    split
    · exact (matched.nodup row.type).erase id
    · exact matched.nodup type
  listed := by
    intro type other
    rw [typeIds_removeFromType, OrderedMap.get?_erase]
    by_cases same : other = id
    · rw [if_pos same, same]
      constructor
      · intro member
        split at member
        · exact absurd member (List.Nodup.not_mem_erase (matched.nodup row.type))
        · next elsewhere =>
            rcases (matched.listed type id).mp member with ⟨base, found, rfl⟩
            rw [held] at found
            cases found
            exact absurd rfl elsewhere
      · rintro ⟨_, absent, _⟩
        cases absent
    · rw [if_neg same, ← matched.listed type other]
      split
      · next here => rw [here, List.mem_erase_of_ne same]
      · exact Iff.rfl

theorem TypesMatch.drop (matched : TypesMatch types entities) :
    TypesMatch (match entities.get? id with
      | some row => removeFromType types row.type id
      | none => types) (entities.erase id) := by
  cases held : entities.get? id with
  | some row => exact matched.remove held
  | none =>
      constructor
      case nodup => exact matched.nodup
      case listed =>
        intro type other
        rw [matched.listed type other, OrderedMap.get?_erase]
        split
        · next same => rw [same, held]
        · exact Iff.rfl

theorem TypesMatch.congr {others : OrderedMap String (Entity V)}
    (matched : TypesMatch types entities)
    (same : ∀ id, others.get? id = entities.get? id) : TypesMatch types others where
  nodup := matched.nodup
  listed := by
    intro type id
    rw [same]
    exact matched.listed type id

theorem TypesMatch.retype (matched : TypesMatch types entities) (next : Entity V) :
    TypesMatch (retype types (entities.get? id) next id) (entities.set id next) := by
  unfold LiveReplica.retype
  cases held : entities.get? id with
  | none =>
      apply matched.add
      rw [held]
      exact nofun
  | some row =>
      dsimp only
      split
      · have removed := matched.remove held
        have added : TypesMatch (addToType (removeFromType types row.type id) next.type id)
            ((entities.erase id).set id next) := by
          apply removed.add
          intro base found
          rw [OrderedMap.get?_erase, if_pos rfl] at found
          cases found
        apply added.congr
        intro other
        rw [OrderedMap.get?_set, OrderedMap.get?_set, OrderedMap.get?_erase]
        split
        · rfl
        · rfl
      · next same =>
          apply matched.add
          intro base found
          rw [held] at found
          cases found
          exact Decidable.not_not.mp same

theorem TypesMatch.replace (matched : TypesMatch types entities) {base row : Entity V}
    (held : entities.get? id = some base) (same : base.type = row.type) :
    TypesMatch types (entities.set id row) where
  nodup := matched.nodup
  listed := by
    intro type other
    rw [matched.listed type other, OrderedMap.get?_set]
    split
    · next here =>
        rw [here, held]
        constructor
        · rintro ⟨_, ⟨⟩, rfl⟩
          exact ⟨row, rfl, same.symm⟩
        · rintro ⟨_, ⟨⟩, rfl⟩
          exact ⟨base, rfl, same⟩
    · exact Iff.rfl

end TypesMatch

/-! ## Iterating a type -/

section Iterate

variable {replica : LiveReplica V} {type : String}

/-- The view of one id laid over the ids of a type. -/
def layView (type : String) (ids : List String) (entry : String × Option (Entity V)) :
    List String :=
  match entry.2 with
  | some row =>
      if row.type = type then (if entry.1 ∈ ids then ids else ids ++ [entry.1])
      else ids.erase entry.1
  | none => ids.erase entry.1

theorem iterateIds_eq (replica : LiveReplica V) (type : String) :
    replica.iterateIds type =
      replica.effective.entries.foldl (layView type) (typeIds replica.typeIndex type) := rfl

theorem layView_spec {ids : List String} (nodup : ids.Nodup) (key : String)
    (view : Option (Entity V)) :
    (layView type ids (key, view)).Nodup ∧ ∀ id, id ∈ layView type ids (key, view) ↔
      if id = key then ∃ row, view = some row ∧ row.type = type else id ∈ ids := by
  have erased : ∀ id, id ∈ ids.erase key ↔ if id = key then False else id ∈ ids := by
    intro id
    split
    · next same =>
        rw [same]
        exact iff_false_intro (List.Nodup.not_mem_erase nodup)
    · next different => exact List.mem_erase_of_ne different
  cases view with
  | none =>
      refine ⟨nodup.erase key, fun id => ?_⟩
      rw [layView, erased]
      simp
  | some row =>
      rw [layView]
      dsimp only
      by_cases typed : row.type = type
      · rw [if_pos typed]
        split
        · next listed =>
            refine ⟨nodup, fun id => ?_⟩
            split
            · next same => exact iff_of_true (same ▸ listed) ⟨row, rfl, typed⟩
            · exact Iff.rfl
        · next fresh =>
            refine ⟨nodup_concat nodup fresh, fun id => ?_⟩
            rw [List.mem_append, List.mem_singleton]
            split
            · next same => exact iff_of_true (.inr same) ⟨row, rfl, typed⟩
            · next different => exact or_iff_left different
      · rw [if_neg typed]
        refine ⟨nodup.erase key, fun id => ?_⟩
        rw [erased]
        split
        · apply iff_of_false not_false
          rintro ⟨_, ⟨⟩, here⟩
          exact typed here
        · exact Iff.rfl

theorem foldl_layView_spec {views : List (String × Option (Entity V))}
    (keys : (views.map Prod.fst).Nodup) {ids : List String} (nodup : ids.Nodup) :
    (views.foldl (layView type) ids).Nodup ∧ ∀ id, id ∈ views.foldl (layView type) ids ↔
      match views.lookup id with
      | some view => ∃ row, view = some row ∧ row.type = type
      | none => id ∈ ids := by
  induction views generalizing ids with
  | nil => exact ⟨nodup, fun _ => Iff.rfl⟩
  | cons entry rest induction =>
      rcases entry with ⟨key, view⟩
      have parts := List.nodup_cons.mp keys
      have one := @layView_spec V type ids nodup key view
      have later := induction parts.2 one.1
      refine ⟨later.1, fun id => ?_⟩
      rw [List.foldl_cons, later.2 id, lookup_cons_eq]
      by_cases same : id = key
      · have absent : rest.lookup id = none := by
          rw [← Option.not_isSome_iff_eq_none, lookup_isSome_iff_mem_keys, same]
          exact parts.1
        rw [absent, if_pos same]
        dsimp only
        rw [one.2, if_pos same]
      · rw [if_neg same]
        cases rest.lookup id with
        | some _ => exact Iff.rfl
        | none =>
            dsimp only
            rw [one.2, if_neg same]

def Typed (replica : LiveReplica V) : Prop := TypesMatch replica.typeIndex replica.entities

theorem nodup_iterateIds (typed : Typed replica) : (replica.iterateIds type).Nodup :=
  (foldl_layView_spec replica.effective.nodup (typed.nodup type)).1

theorem mem_iterateIds (typed : Typed replica) (id : String) :
    id ∈ replica.iterateIds type ↔ ∃ row, replica.viewOf id = some row ∧ row.type = type := by
  rw [iterateIds_eq, (foldl_layView_spec replica.effective.nodup (typed.nodup type)).2 id]
  change (match replica.effective.get? id with
      | some view => ∃ row, view = some row ∧ row.type = type
      | none => id ∈ typeIds replica.typeIndex type) ↔ _
  rw [viewOf]
  cases replica.effective.get? id with
  | some view => exact Iff.rfl
  | none => exact typed.listed type id

theorem iterate_exact {P : Fields V → Prop} (kept : Kept P replica) (typed : Typed replica)
    (type : String) :
    ((replica.iterate type).map Entity.id).Nodup ∧
      ∀ row, row ∈ replica.iterate type ↔
        replica.viewOf row.id = some row ∧ row.type = type := by
  have ids : (replica.iterate type).map Entity.id = replica.iterateIds type := by
    have listed : ∀ id ∈ replica.iterateIds type, ((replica.viewOf id).map Entity.id) = some id := by
      intro id member
      rcases (mem_iterateIds typed id).mp member with ⟨row, viewed, _⟩
      rw [viewed, Option.map_some, (kept.viewOf id row viewed).1]
    rw [iterate, List.map_filterMap]
    exact (List.filterMap_congr listed).trans (List.filterMap_some)
  constructor
  · rw [ids]
    exact nodup_iterateIds typed
  · intro row
    rw [iterate, List.mem_filterMap]
    constructor
    · rintro ⟨id, member, viewed⟩
      rcases (mem_iterateIds typed id).mp member with ⟨other, found, rfl⟩
      rw [viewed] at found
      cases found
      rw [(kept.viewOf id row viewed).1]
      exact ⟨viewed, rfl⟩
    · rintro ⟨viewed, typedRow⟩
      exact ⟨row.id, (mem_iterateIds typed row.id).mpr ⟨row, viewed, typedRow⟩, viewed⟩

end Iterate

/-! ## Operations -/

section Operations

variable {options : ReplicaOptions V} {replica : LiveReplica V}

theorem typed_empty : Typed (empty : LiveReplica V) := typesMatch_empty

theorem Typed.congr {other : LiveReplica V} (typed : Typed replica)
    (typeIndex : other.typeIndex = replica.typeIndex)
      (entities : other.entities = replica.entities) :
    Typed other := by
  rw [Typed, typeIndex, entities]
  exact typed

theorem Typed.replayOrphans (typed : Typed replica) {id : String} {next : Entity V}
    (held : replica.entities.get? id = some next) (gsn : Nat) :
    Typed (replica.replayOrphans id gsn next) := by
  rw [LiveReplica.replayOrphans]
  split
  · exact typed
  · next pending _ =>
      dsimp only
      split
      · next same => exact TypesMatch.replace typed held same
      · next moved =>
          have retyped := @TypesMatch.retype _ _ _ id typed
            ((Replica.survivors pending gsn).foldl Replica.replayOrphan next)
          rw [held, retype, if_pos moved] at retyped
          exact retyped

theorem Typed.foldBase (typed : Typed replica) (update : Update V) (gsn : Nat)
    (hlc : HLCTimestamp) (position : Nat) :
    Typed (replica.foldBase options update gsn hlc position) := by
  rw [LiveReplica.foldBase]
  dsimp only
  split
  · exact typed
  · split
    · split
      · exact typed
      · exact typed
    · split
      · exact TypesMatch.drop typed
      · next next _ _ =>
          have installed : Typed { replica with
              entities := replica.entities.set update.subjectId next
              typeIndex := LiveReplica.retype replica.typeIndex
                (replica.entities.get? update.subjectId) next update.subjectId } :=
            TypesMatch.retype typed next
          split
          · exact installed.replayOrphans (OrderedMap.get?_set_self _ _ _) gsn
          · exact installed

theorem Typed.foldl_foldBase {γ : Type} (typed : Typed replica) (updateOf : γ → Update V)
    (gsn : γ → Nat) (hlc : γ → HLCTimestamp) (position : γ → Nat) (folds : List γ) :
    Typed (folds.foldl (fun replica fold =>
      replica.foldBase options (updateOf fold) (gsn fold) (hlc fold) (position fold)) replica) := by
  induction folds generalizing replica with
  | nil => exact typed
  | cons fold rest induction => exact induction (typed.foldBase _ _ _ _)

theorem Typed.resync [DecidableEq V] (typed : Typed replica) (id : String)
    (previous : Option (Entity V)) : Typed (replica.resync options id previous) := by
  have frame := @resync_frame V options _ replica id previous
  exact typed.congr frame.2.2.1 frame.1

theorem Typed.resyncAll [DecidableEq V] (typed : Typed replica)
    (before : String → Option (Entity V)) (ids : List String) :
    Typed (LiveReplica.resyncAll options before ids replica) := by
  induction ids generalizing replica with
  | nil => exact typed
  | cons id rest induction => exact induction (typed.resync id (before id))

variable (options) in
theorem Typed.forget (typed : Typed replica) (id : String) : Typed (replica.forget options id) := by
  rcases @cancelOpen_eq V replica id with ⟨_, _, _, _, equal⟩
  rw [LiveReplica.forget, equal]
  exact TypesMatch.drop typed

variable (options) in
theorem Typed.evict (typed : Typed replica) (ids : List String) :
    Typed (replica.evict options ids) := by
  have general : ∀ (ids : List String) (start : LiveReplica V), Typed start →
      Typed (ids.foldl (evictOne options) start) := by
    intro ids
    induction ids with
    | nil => exact fun _ typed => typed
    | cons id rest induction =>
        intro start typed
        apply induction
        rw [evictOne]
        split
        · exact typed.forget options id
        · rcases @bump_eq V options (start.forget options id) id _ true with ⟨_, _, equal⟩
          rw [equal]
          exact typed.forget options id
  exact general _ _ typed

theorem Typed.closePin (typed : Typed replica) (id : String) :
    Typed (replica.closePin options id) := by
  rw [LiveReplica.closePin]
  split
  · exact typed
  · next pin _ =>
    split
    · exact typed
    · split
      · exact typed
      · have scheduled : Typed { replica with
            pins := replica.pins.set id { isOpen := false, timer := pin.timer } } := typed
        exact scheduled.evict options [id]

theorem Typed.cancelOpen (typed : Typed replica) (id : String) : Typed (replica.cancelOpen id) := by
  rcases @cancelOpen_eq V replica id with ⟨_, _, _, _, equal⟩
  rw [equal]
  exact typed

theorem Typed.openPin (typed : Typed replica) (id : String) :
    Typed (replica.openPin options id) := by
  have pinned : Typed { replica with
      pins := (replica.pins.erase id).set id { isOpen := true, timer := false } } := typed
  exact pinned.evict options _

theorem Typed.openRow (typed : Typed replica) (id : String) :
    Typed (replica.openRow options id) := by
  rw [LiveReplica.openRow]
  split
  · split
    · exact typed
    · exact typed.openPin id
  · split
    · exact typed
    · exact typed

theorem Typed.close (typed : Typed replica) (id : String) : Typed (replica.close options id) := by
  rw [LiveReplica.close]
  split
  · exact typed.cancelOpen id
  · split
    · exact typed
    · dsimp only
      split
      · exact (typed.cancelOpen id).closePin id
      · exact (typed.cancelOpen id).evict options [id]

theorem Typed.folded (typed : Typed replica) (action : Action V) (delta : List (Update V))
    (position : Nat) : Typed (replica.folded options action delta position) := by
  have dropped : Typed (replica.dropOverlay action.id) := typed
  have folds : Typed (delta.foldl (fun replica update =>
      replica.foldBase options update action.gsn action.hlc position)
      (replica.dropOverlay action.id)) :=
    dropped.foldl_foldBase id (fun _ => action.gsn) (fun _ => action.hlc) (fun _ => position) delta
  exact folds

variable [DecidableEq V]

theorem Typed.install (typed : Typed replica) {id : String} {row : Entity V}
    (free : ∀ base, replica.entities.get? id = some base → base.type = row.type)
    (buffered : List (OrphanUpdate V)) : Typed (replica.install options id row buffered) := by
  have entered : Typed { replica with
      entities := replica.entities.set id row
      typeIndex := addToType replica.typeIndex row.type id } := TypesMatch.add typed free
  apply Typed.resync
  apply Typed.foldl_foldBase _ OrphanUpdate.update OrphanUpdate.gsn OrphanUpdate.hlc
    OrphanUpdate.position
  exact entered.openPin id

theorem Typed.opened (typed : Typed replica) {id : String} {epoch : Nat}
    {loaded : Option (Entity V)}
    (free : replica.openEpochs.get? id = some epoch → ∀ row ∈ loaded,
      options.holds row.type = false →
        ∀ base, replica.entities.get? id = some base → base.type = row.type) :
    Typed (replica.opened options id epoch loaded) := by
  rw [LiveReplica.opened]
  dsimp only
  split
  · exact typed
  · next current =>
      split
      · exact typed
      · split
        · exact typed
        · next row unheld =>
            have drained : Typed { replica.landed id epoch with
                pendingOpens := (replica.landed id epoch).pendingOpens.erase id } := typed
            exact drained.install (free (Decidable.not_not.mp current) row rfl
              (Bool.not_eq_true _ ▸ unheld)) _

end Operations

end Ebb.Storage.LiveReplica
