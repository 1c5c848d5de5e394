import Ebb.Foundation.Bag
import Ebb.Storage.ReplicaViews
import Ebb.Sync.RelationshipWrite

namespace Ebb.Sync

open Storage

/-! The targets a forward accessor reads after a run of link verbs, against the targets the
verbs specify. -/

/-! ## What one Update does to the store -/

namespace LinkStore

/-- Rows are stored under their ids and the index follows them. -/
structure Keyed (store : LinkStore) : Prop where
  named : ∀ id row, store.rows.get? id = some row → row.id = id
  indexes : ∀ id, ReverseIndex.Indexes store.forwardIndex (forwardIndexEntryFor asString) id
    (store.rows.get? id)

theorem get?_rows_write (store : LinkStore) (hlc : HLCTimestamp) (gsn : Nat)
    (update : Update Term) (id : String) :
    (store.write hlc gsn update).rows.get? id =
      if id = update.subjectId then
        applyUpdate (store.rows.get? update.subjectId) update gsn hlc
      else store.rows.get? id := by
  rw [write]
  cases applied : applyUpdate (store.rows.get? update.subjectId) update gsn hlc with
  | none =>
      dsimp only
      split
      · next here =>
          subst here
          cases held : store.rows.get? update.subjectId with
          | none => rfl
          | some row =>
              rw [held] at applied
              unfold applyUpdate at applied
              split at applied
              · cases applied
              · next missing => cases missing
              · split at applied
                · cases applied
                · cases applied
              · next missing => cases missing
              · cases applied
      · rfl
  | some row =>
      dsimp only
      rw [OrderedMap.get?_set]

theorem get?_rows_write_of {store : LinkStore} {update : Update Term} {rowId : String}
    (subject : update.subjectId = rowId) (hlc : HLCTimestamp) (gsn : Nat) (id : String) :
    (store.write hlc gsn update).rows.get? id =
      if id = rowId then applyUpdate (store.rows.get? rowId) update gsn hlc
      else store.rows.get? id := by
  subst subject
  exact get?_rows_write store hlc gsn update id

theorem Keyed.write {store : LinkStore} (keyed : store.Keyed) (hlc : HLCTimestamp) (gsn : Nat)
    (update : Update Term) : (store.write hlc gsn update).Keyed := by
  have previousNamed : ∀ row, store.rows.get? update.subjectId = some row →
      row.id = update.subjectId := fun row held => keyed.named update.subjectId row held
  have nextNamed : ∀ row, applyUpdate (store.rows.get? update.subjectId) update gsn hlc =
      some row → row.id = update.subjectId := by
    intro row applied
    have about : LiveReplica.About (fun _ => True) update.subjectId update := ⟨rfl, trivial⟩
    exact (LiveReplica.rowAbout_applyUpdate (fun _ _ _ _ => trivial)
      (fun row held => ⟨previousNamed row held, trivial⟩) about gsn hlc row applied).1
  have entryNamed : ∀ row : Option (Entity Term),
      (∀ entity, row = some entity → entity.id = update.subjectId) →
      ∀ entry, row.bind (forwardIndexEntryFor asString) = some entry →
        entry.rowId = update.subjectId := by
    intro row named entry found
    rcases Option.bind_eq_some_iff.mp found with ⟨entity, same, filed⟩
    rw [rowId_forwardIndexEntryFor asString filed, named entity same]
  constructor
  case named =>
    intro id row held
    rw [get?_rows_write] at held
    split at held
    · next here => rw [nextNamed row held, here]
    · exact keyed.named id row held
  case indexes =>
    intro id
    rw [get?_rows_write]
    by_cases here : id = update.subjectId
    · subst here
      rw [if_pos rfl]
      exact (keyed.indexes update.subjectId).applied (entryNamed _ previousNamed)
        (entryNamed _ nextNamed)
    · rw [if_neg here]
      exact (keyed.indexes id).other here (entryNamed _ previousNamed) (entryNamed _ nextNamed)

theorem Keyed.writeAll {store : LinkStore} (keyed : store.Keyed) (hlc : HLCTimestamp) (gsn : Nat)
    (updates : List (Update Term)) : (store.writeAll hlc gsn updates).Keyed := by
  induction updates generalizing store with
  | nil => exact keyed
  | cons update rest induction => exact induction (keyed.write hlc gsn update)

theorem write_delete_absent {store : LinkStore} {update : Update Term}
    (deletes : update.method = .delete) (absent : store.rows.get? update.subjectId = none)
    (hlc : HLCTimestamp) (gsn : Nat) : store.write hlc gsn update = store := by
  have nothing : applyUpdate (store.rows.get? update.subjectId) update gsn hlc = none := by
    rw [absent]
    unfold applyUpdate
    rw [deletes]
  rw [write, nothing, absent]
  rfl

end LinkStore

/-! ## Links as rows -/

section Links

variable {collation : IdCollation} {relationship : DeclaredRelationship} {sourceId : String}

def linkEntry (relationship : DeclaredRelationship) (sourceId rowId targetId : String) :
    IndexEntry :=
  { key := linksKey relationship sourceId, rowId, value := targetId }

def Linked (relationship : DeclaredRelationship) (sourceId : String) (store : LinkStore)
    (rowId targetId : String) : Prop :=
  (store.rows.get? rowId).bind (forwardIndexEntryFor asString) =
    some (linkEntry relationship sourceId rowId targetId)

theorem mem_forwardLinks {store : LinkStore} (keyed : store.Keyed) (link : RelationshipLink) :
    link ∈ forwardLinks collation relationship sourceId store ↔
      Linked relationship sourceId store link.relationshipId link.targetId := by
  have read : link ∈ forwardLinks collation relationship sourceId store ↔
      ReverseIndex.row? store.forwardIndex (linksKey relationship sourceId)
        link.relationshipId = some link.targetId := by
    rw [forwardLinks, List.mem_map, ReverseIndex.row?]
    simp only [liveIndexRows, List.mem_insertionSort]
    cases store.forwardIndex.get? (linksKey relationship sourceId) with
    | none =>
        simp [OrderedMap.empty]
    | some rows =>
        simp only [Option.getD_some, Option.bind_some, OrderedMap.get?_eq_some_iff]
        constructor
        · rintro ⟨row, member, rfl⟩
          exact member
        · intro member
          exact ⟨_, member, rfl⟩
  rw [read, keyed.indexes, Linked]
  constructor
  · rintro ⟨entry, found, key, value⟩
    rw [found]
    rcases Option.bind_eq_some_iff.mp found with ⟨row, held, filed⟩
    have rowId : entry.rowId = link.relationshipId := by
      rw [rowId_forwardIndexEntryFor asString filed, keyed.named _ row held]
    cases entry
    cases key
    cases value
    cases rowId
    rfl
  · intro found
    exact ⟨_, found, rfl, rfl⟩

def LinkedTo (relationship : DeclaredRelationship) (sourceId : String) (store : LinkStore)
    (targetId : String) : Prop :=
  ∃ rowId, Linked relationship sourceId store rowId targetId

variable {store : LinkStore} {label : String} {targetIds : ManyPointerValue} {targets : List String}
  {pointer : RelationshipPointer} {relationshipSubjectId : Option String}
  {updates : List (Update Term)} {session : LinkSession} {event : LinkEvent}

theorem mem_targets (keyed : store.Keyed) (targetId : String) :
    targetId ∈ (forwardLinks collation relationship sourceId store).map RelationshipLink.targetId ↔
      LinkedTo relationship sourceId store targetId := by
  rw [List.mem_map]
  constructor
  · rintro ⟨link, member, rfl⟩
    exact ⟨link.relationshipId, (mem_forwardLinks keyed link).mp member⟩
  · rintro ⟨rowId, linked⟩
    exact ⟨⟨rowId, targetId⟩, (mem_forwardLinks keyed _).mpr linked, rfl⟩

theorem linked_congr {before after : LinkStore} {rowId targetId : String}
    (same : after.rows.get? rowId = before.rows.get? rowId) :
    Linked relationship sourceId after rowId targetId ↔
      Linked relationship sourceId before rowId targetId := by
  rw [Linked, Linked, same]

theorem forwardIndexEntryFor_of_type {row : Entity Term}
    (type : row.type ≠ relationshipEntityType ∧ row.type ≠ membershipEntityType) :
    forwardIndexEntryFor asString row = none := by
  simp [forwardIndexEntryFor, forwardRelationshipEntryFor, forwardMembershipEntryFor,
    Storage.entryOf,
    type.1, type.2]

theorem forwardIndexEntryFor_of_deleted {row : Entity Term} (deleted : row.deletedHlc.isSome) :
    forwardIndexEntryFor asString row = none := by
  simp [forwardIndexEntryFor, forwardRelationshipEntryFor, forwardMembershipEntryFor,
    Storage.entryOf,
    deleted]

/-! ## A put and a delete of one link -/

theorem subjectId_buildRelationshipUpdate (rowId source : String) (target : Option String)
    (field type updateId : String) :
    (buildRelationshipUpdate rowId source target field type updateId).subjectId = rowId := by
  cases target with
  | none => rfl
  | some target => rfl

theorem linked_put {store : LinkStore} {rowId targetId updateId : String}
    (absent : store.rows.get? rowId = none) (hlc : HLCTimestamp) (gsn : Nat)
    (otherId otherTarget : String) :
    Linked relationship sourceId (store.write hlc gsn (buildRelationshipUpdate rowId sourceId
        (some targetId) relationship.accessor relationship.wireTypeFor updateId))
        otherId otherTarget ↔
      otherId = rowId ∧ otherTarget = targetId ∨
        Linked relationship sourceId store otherId otherTarget := by
  rw [Linked, Linked,
    LinkStore.get?_rows_write_of (subjectId_buildRelationshipUpdate rowId _ _ _ _ _)]
  by_cases here : otherId = rowId
  · subst here
    have filed : (applyUpdate none (buildRelationshipUpdate otherId sourceId (some targetId)
        relationship.accessor relationship.wireTypeFor updateId) gsn hlc).bind
          (forwardIndexEntryFor asString) =
        some (linkEntry relationship sourceId otherId targetId) := rfl
    rw [if_pos rfl, absent, filed]
    constructor
    · intro same
      cases same
      exact .inl ⟨rfl, rfl⟩
    · rintro (⟨_, rfl⟩ | missing)
      · rfl
      · cases missing
  · have elsewhere : ¬(otherId = rowId ∧ otherTarget = targetId) := fun both => here both.1
    rw [if_neg here]
    simp only [elsewhere, false_or]

theorem linked_delete {rowId updateId : String} (hlc : HLCTimestamp) (gsn : Nat)
    (otherId otherTarget : String) :
    Linked relationship sourceId (store.write hlc gsn (buildRelationshipUpdate rowId sourceId
        none relationship.accessor relationship.wireTypeFor updateId)) otherId otherTarget ↔
      otherId ≠ rowId ∧ Linked relationship sourceId store otherId otherTarget := by
  rw [Linked, Linked,
    LinkStore.get?_rows_write_of (subjectId_buildRelationshipUpdate rowId _ _ _ _ _)]
  by_cases here : otherId = rowId
  · subst here
    rw [if_pos rfl]
    have unfiled : (applyUpdate (store.rows.get? otherId) (buildRelationshipUpdate otherId sourceId
        none relationship.accessor relationship.wireTypeFor updateId) gsn hlc).bind
          (forwardIndexEntryFor asString) = none := by
      cases store.rows.get? otherId with
      | none => rfl
      | some row => exact forwardIndexEntryFor_of_deleted rfl
    rw [unfiled]
    constructor
    · exact fun missing => by cases missing
    · exact fun both => absurd rfl both.1
  · rw [if_neg here]
    exact (and_iff_right here).symm

/-! ## The Updates of an admitted verb -/

theorem target?_of_normalizePointer {value : PointerValue} {id : Option String}
    (admitted : normalizePointer value label = .ok id) :
    id = value.target? := by
  cases value with
  | id value =>
      rw [normalizePointer] at admitted
      split at admitted
      · cases admitted
      · cases admitted
        rfl
  | null =>
      cases admitted
      rfl
  | undefined =>
      cases admitted
      rfl

theorem map_of_mapM {α β γ ε : Type} {step : α → Except ε β} {read : β → γ} {image : α → γ}
    (steps : ∀ value result, step value = .ok result → read result = image value)
    {values : List α} {results : List β} (mapped : values.mapM step = .ok results) :
    results.map read = values.map image := by
  induction values generalizing results with
  | nil =>
      cases mapped
      rfl
  | cons head rest induction =>
      rw [List.mapM_cons] at mapped
      cases first : step head with
      | error message =>
          rw [first] at mapped
          cases mapped
      | ok value =>
          cases others : rest.mapM step with
          | error message =>
              rw [first, others] at mapped
              cases mapped
          | ok more =>
              rw [first, others] at mapped
              cases mapped
              rw [List.map_cons, List.map_cons, steps head value first, induction others]

theorem target?_of_normalizeEntry {id : String} {value : PointerValue}
    (admitted : normalizeEntry label value = .ok id) : some id = value.target? := by
  rw [normalizeEntry] at admitted
  split at admitted
  · cases admitted
  · cases admitted
  · next found normalized =>
      cases admitted
      exact target?_of_normalizePointer normalized

theorem normalizeManyPointers_spec {value : ManyPointerValue} {ids : List String}
    (admitted : normalizeManyPointers value label = .ok ids) :
    ids = (namedTargets value.pointers).eraseDups := by
  rw [normalizeManyPointers] at admitted
  cases mapped : value.pointers.mapM (normalizeEntry label) with
  | error message =>
      rw [mapped] at admitted
      cases admitted
  | ok found =>
      rw [mapped] at admitted
      cases admitted
      have same := map_of_mapM (fun value id step => target?_of_normalizeEntry step) mapped
      have named := congrArg (List.filterMap id) same
      rw [List.filterMap_map, List.filterMap_map] at named
      have kept : found = namedTargets value.pointers := by
        simpa [namedTargets, Function.comp_def] using named
      rw [kept]

theorem patchedTargets_spec {pointers : List PointerValue} {ids : List String}
    (admitted : patchedTargets label pointers = .ok ids) :
    ids = namedTargets pointers := by
  rw [patchedTargets] at admitted
  cases mapped : pointers.mapM fun pointer => normalizePointer pointer label with
  | error message =>
      rw [mapped] at admitted
      cases admitted
  | ok found =>
      rw [mapped] at admitted
      cases admitted
      have same : found.map id = pointers.map PointerValue.target? :=
        map_of_mapM (fun pointer id step => target?_of_normalizePointer step) mapped
      rw [List.map_id] at same
      rw [same, List.filterMap_map]
      rfl

section

variable (admitted : manyTargets relationship targetIds = .ok targets)
include admitted

theorem manyTargets_spec :
    targets = (namedTargets targetIds.pointers).eraseDups ∨
      targets = namedTargets targetIds.pointers := by
  cases targetIds with
  | replace pointers => exact .inl (normalizeManyPointers_spec admitted)
  | change add remove =>
      right
      rw [manyTargets] at admitted
      cases added : patchedTargets ("targetIds.add for \"" ++ relationship.accessor ++ "\"") add with
      | error message =>
          rw [added] at admitted
          cases admitted
      | ok first =>
          cases removed : patchedTargets
              ("targetIds.remove for \"" ++ relationship.accessor ++ "\"") remove with
          | error message =>
              rw [added, removed] at admitted
              cases admitted
          | ok second =>
              rw [added, removed] at admitted
              cases admitted
              rw [patchedTargets_spec added, patchedTargets_spec removed]
              simp only [namedTargets, ManyPointerValue.pointers, List.filterMap_append]

theorem mem_manyTargets (id : String) : id ∈ targets ↔ id ∈ namedTargets targetIds.pointers := by
  rcases manyTargets_spec admitted with rfl | rfl
  · exact List.mem_eraseDups
  · exact Iff.rfl

theorem length_manyTargets : targets.length ≤ targetIds.pointers.length := by
  have named : (namedTargets targetIds.pointers).length ≤ targetIds.pointers.length :=
    List.length_filterMap_le _ _
  rcases manyTargets_spec admitted with rfl | rfl
  · have within : (namedTargets targetIds.pointers).eraseDups ⊆ namedTargets targetIds.pointers :=
      fun id member => List.mem_eraseDups.mp member
    exact (List.subperm_of_subset (nodup_eraseDups _) within).length_le.trans named
  · exact named

end

theorem updates_of_one (one : relationship.sourceCardinality = .one) {minted : Minted}
    (admitted : writeRelationship relationship sourceId minted pointer relationshipSubjectId =
      .ok updates) :
    updates = [buildRelationshipUpdate (relationshipSubjectId.getD (minted.relationshipId 0))
      sourceId pointer.targetId.target? relationship.accessor relationship.wireTypeFor
      (minted.updateId 0)] := by
  simp only [writeRelationship, one] at admitted
  split at admitted
  · cases admitted
  · cases normalized : normalizePointer pointer.targetId
        ("targetId for \"" ++ relationship.accessor ++ "\"") with
    | error message =>
        rw [normalized] at admitted
        cases admitted
    | ok target =>
        rw [normalized] at admitted
        cases admitted
        rw [target?_of_normalizePointer normalized]

theorem updates_of_many (many : relationship.sourceCardinality = .many) {minted : Minted}
    (admitted : writeRelationship relationship sourceId minted pointer relationshipSubjectId =
      .ok updates) :
    ∃ targetIds targets, pointer.targetIds = some targetIds ∧
      manyTargets relationship targetIds = .ok targets ∧
      updates = buildManyEntityUpdate sourceId relationship.source relationship.accessor
          (collectManyTargetIds targetIds) (minted.updateId 0) minted.hlc ::
        makeManyRelationshipUpdates relationship sourceId minted 0 targets := by
  simp only [writeRelationship, many] at admitted
  cases given : pointer.targetIds with
  | none =>
      rw [given] at admitted
      cases admitted
  | some targetIds =>
      rw [given] at admitted
      cases found : manyTargets relationship targetIds with
      | error message =>
          simp only [found] at admitted
          cases admitted
      | ok targets =>
          simp only [found] at admitted
          cases admitted
          exact ⟨targetIds, targets, rfl, found, rfl⟩

/-! ## The puts of a set -/

/-- The ids a commit mints from a place on: distinct, and of no row in the store. -/
def FreshFrom (minted : Minted) (store : LinkStore) (start stop : Nat) : Prop :=
  ∀ index, start ≤ index → index < stop →
    store.rows.get? (minted.relationshipId index) = none ∧
      ∀ other, start ≤ other → other < stop →
        minted.relationshipId index = minted.relationshipId other → index = other

/-- What a list of puts adds to a store. -/
structure PutsAdded (relationship : DeclaredRelationship) (sourceId : String) (minted : Minted)
    (before after : LinkStore) (start : Nat) (targets : List String) : Prop where
  keyed : after.Keyed
  linkedTo : ∀ target, LinkedTo relationship sourceId after target ↔
    LinkedTo relationship sourceId before target ∨ target ∈ targets
  kept : ∀ id, (∀ index, start ≤ index → index < start + targets.length →
    id ≠ minted.relationshipId index) → after.rows.get? id = before.rows.get? id
  added : ∀ index, start ≤ index → index < start + targets.length →
    ∃ row, after.rows.get? (minted.relationshipId index) = some row ∧
      row.type = relationshipEntityType

theorem putsAdded {minted : Minted} (hlc : HLCTimestamp) (gsn : Nat) {before : LinkStore}
    (keyed : before.Keyed) (targets : List String) (start : Nat)
    (fresh : FreshFrom minted before start (start + targets.length)) :
    PutsAdded relationship sourceId minted before
      (before.writeAll hlc gsn
        (makeManyRelationshipUpdates relationship sourceId minted start targets))
      start targets := by
  induction targets generalizing before start with
  | nil =>
      constructor
      case keyed => exact keyed
      case linkedTo =>
        intro target
        simp only [List.not_mem_nil, or_false]
        exact Iff.rfl
      case kept => exact fun _ _ => rfl
      case added =>
        intro index first last
        simp only [List.length_nil] at last
        omega
  | cons target rest induction =>
      rw [List.length_cons] at fresh
      have absent := (fresh start le_rfl (by omega)).1
      have subject := subjectId_buildRelationshipUpdate (minted.relationshipId start) sourceId
        (some target) relationship.accessor relationship.wireTypeFor (minted.updateId (start + 1))
      have stored := @LinkStore.get?_rows_write_of before _ _ subject hlc gsn
      have linked := @linked_put relationship sourceId before (minted.relationshipId start) target
        (minted.updateId (start + 1)) absent hlc gsn
      have middleKeyed := keyed.write hlc gsn (buildRelationshipUpdate (minted.relationshipId start)
        sourceId (some target) relationship.accessor relationship.wireTypeFor
        (minted.updateId (start + 1)))
      have middleFresh : FreshFrom minted (before.write hlc gsn (buildRelationshipUpdate
          (minted.relationshipId start) sourceId (some target) relationship.accessor
          relationship.wireTypeFor (minted.updateId (start + 1)))) (start + 1)
          (start + 1 + rest.length) := by
        intro index first last
        have before := fresh index (by omega) (by omega)
        have different : minted.relationshipId index ≠ minted.relationshipId start := by
          intro same
          have := before.2 start le_rfl (by omega) same
          omega
        constructor
        · rw [stored, if_neg different]
          exact before.1
        · exact fun other first last => before.2 other (by omega) (by omega)
      have later := induction middleKeyed (start + 1) middleFresh
      rw [makeManyRelationshipUpdates, LinkStore.writeAll, List.foldl_cons]
      constructor
      case keyed => exact later.keyed
      case linkedTo =>
        intro other
        have middle : LinkedTo relationship sourceId (before.write hlc gsn
            (buildRelationshipUpdate (minted.relationshipId start) sourceId (some target)
              relationship.accessor relationship.wireTypeFor (minted.updateId (start + 1)))) other ↔
            other = target ∨ LinkedTo relationship sourceId before other := by
          constructor
          · rintro ⟨rowId, holds⟩
            rcases (linked rowId other).mp holds with ⟨_, same⟩ | holds
            · exact .inl same
            · exact .inr ⟨rowId, holds⟩
          · rintro (same | ⟨rowId, holds⟩)
            · exact ⟨_, (linked _ other).mpr (.inl ⟨rfl, same⟩)⟩
            · exact ⟨rowId, (linked rowId other).mpr (.inr holds)⟩
        refine (later.linkedTo other).trans ?_
        rw [middle, List.mem_cons, or_assoc, or_left_comm]
      case kept =>
        intro id outside
        refine (later.kept id fun index first last => outside index (by omega) ?_).trans ?_
        · rw [List.length_cons]
          omega
        · rw [stored, if_neg (outside start le_rfl (by rw [List.length_cons]; omega))]
      case added =>
        intro index first last
        rw [List.length_cons] at last
        by_cases here : index = start
        · subst here
          have outside : ∀ other, index + 1 ≤ other → other < index + 1 + rest.length →
              minted.relationshipId index ≠ minted.relationshipId other := by
            intro other first last same
            have := (fresh index le_rfl (by omega)).2 other (by omega) (by omega) same
            omega
          have stays := later.kept _ outside
          rw [stored, if_pos rfl, absent] at stays
          exact ⟨_, stays, rfl⟩
        · exact later.added index (by omega) (by omega)

/-! ## What the accessors read -/

def SourceLive (relationship : DeclaredRelationship) (sourceId : String) (store : LinkStore) :
    Prop :=
  ∃ row, store.rows.get? sourceId = some row ∧ row.deletedHlc = none ∧
    row.type = relationship.source

theorem SourceLive.read (live : SourceLive relationship sourceId store) :
    ∃ row, store.readLocalEntity sourceId = some row ∧ row.type = relationship.source := by
  rcases live with ⟨row, held, present, type⟩
  refine ⟨row, ?_, type⟩
  rw [LinkStore.readLocalEntity, held, Option.filter_some, present]
  rfl

theorem SourceLive.not_linked (live : SourceLive relationship sourceId store) (targetId : String)
    : ¬Linked relationship sourceId store sourceId targetId := by
  rcases live with ⟨row, held, _, type⟩
  rw [Linked, held, Option.bind_some, forwardIndexEntryFor_of_type]
  · nofun
  · rw [type]
    exact relationship.sourceDeclared

theorem forwardOne_of_live (live : SourceLive relationship sourceId store) :
    forwardOne collation relationship sourceId store =
      match forwardLinks collation relationship sourceId store with
      | [] => .null
      | first :: _ => loadTarget store first.targetId := by
  rcases live.read with ⟨row, read, type⟩
  rw [forwardOne, read]
  exact if_neg (not_not.mpr type)

theorem mem_forwardMany (keyed : store.Keyed) (live : SourceLive relationship sourceId store)
    (row : Entity Term) :
    row ∈ forwardMany collation relationship sourceId store ↔
      ∃ targetId, LinkedTo relationship sourceId store targetId ∧
        store.readLocalEntity targetId = some row ∧ row.type = relationship.target := by
  rcases live.read with ⟨source, read, type⟩
  simp only [forwardMany, read, type, ne_eq, not_true_eq_false, if_false, loadRows,
    List.mem_filter, List.mem_filterMap, List.mem_eraseDups, mem_targets keyed, decide_eq_true_eq]
  constructor
  · rintro ⟨⟨targetId, linked, found⟩, ofType⟩
    exact ⟨targetId, linked, found, ofType⟩
  · rintro ⟨targetId, linked, found, ofType⟩
    exact ⟨⟨targetId, linked, found⟩, ofType⟩

/-! ## Exactness -/

variable (collation relationship sourceId)

/-- The forward accessor reads the rows of these targets and no others. -/
def ReadsTargets (store : LinkStore) (targets : List String) : Prop :=
  match relationship.sourceCardinality with
  | .one =>
      targets = [] ∧ forwardOne collation relationship sourceId store = .null ∨
        ∃ target, (∀ other, other ∈ targets ↔ other = target) ∧
          forwardOne collation relationship sourceId store = loadTarget store target
  | .many => ∀ row, row ∈ forwardMany collation relationship sourceId store ↔
      ∃ target ∈ targets, store.readLocalEntity target = some row ∧
        row.type = relationship.target

/-- The source's own field lists these targets. -/
def StoresTargets (store : LinkStore) (targets : List String) : Prop :=
  ∃ (row : Entity Term) (leaf : FieldLeaf Term) (ids : List String),
    store.rows.get? sourceId = some row ∧
    row.fields.lookup relationship.accessor = some (.leaf leaf) ∧
    leaf.value = .list (ids.map .string) ∧ ∀ target, target ∈ ids ↔ target ∈ targets

/-- The relationship set of a session is the specified one, in both places it is kept. -/
def Exact (session : LinkSession) : Prop :=
  ReadsTargets collation relationship sourceId session.store session.specified ∧
    (session.written = true → StoresTargets relationship sourceId session.store session.specified)

/-- A session before its first verb: the specified targets are the ones the accessor reads. -/
structure Opens (session : LinkSession) : Prop where
  keyed : session.store.Keyed
  live : SourceLive relationship sourceId session.store
  reads : ReadsTargets collation relationship sourceId session.store session.specified
  unwritten : session.written = false

/-- When a verb's Updates are all its effect needs, though no row of a link that no longer
holds is deleted but the first one of an unlink. -/
def NeedsNoOtherDelete (session : LinkSession) (event : LinkEvent) : Prop :=
  match relationship.sourceCardinality, event.verb with
  | .one, .link (.id target) =>
      ∀ link ∈ forwardLinks collation relationship sourceId session.store,
        link.targetId = target ∨ collation.localeCompare target link.targetId = .lt
  | .one, .link .null | .one, .unlink =>
      (forwardLinks collation relationship sourceId session.store).length ≤ 1
  | .one, .link .undefined | .one, .setLinks _ =>
      ∀ target, target ∈ event.verb.specify session.specified ↔ target ∈ session.specified
  | .many, .setLinks (.replace targets) =>
      ∀ target ∈ session.specified, ∀ row ∈ session.store.readLocalEntity target,
        row.type = relationship.target → target ∈ namedTargets targets
  | .many, .setLinks (.change add remove) =>
      namedTargets remove = [] ∧ ∀ target ∈ session.specified, target ∈ namedTargets add
  | .many, .link _ | .many, .unlink => True

variable {collation relationship sourceId}

/-- The source is linked to a target of its type exactly when the target is listed. -/
def LiveTarget (relationship : DeclaredRelationship) (store : LinkStore) (targetId : String) :
    Prop :=
  ∃ row, store.readLocalEntity targetId = some row ∧ row.type = relationship.target

theorem readsTargets_many (many : relationship.sourceCardinality = .many) (keyed : store.Keyed)
    (live : SourceLive relationship sourceId store) (targets : List String) :
    ReadsTargets collation relationship sourceId store targets ↔
      ∀ target, LiveTarget relationship store target →
        (LinkedTo relationship sourceId store target ↔ target ∈ targets) := by
  have same : ∀ {left right : String} {row : Entity Term},
      store.readLocalEntity left = some row → store.readLocalEntity right = some row →
        left = right := by
    intro left right row first second
    rw [LinkStore.readLocalEntity, Option.filter_eq_some_iff] at first second
    rw [← keyed.named left row first.1, keyed.named right row second.1]
  simp only [ReadsTargets, many, mem_forwardMany keyed live]
  constructor
  · rintro reads target ⟨row, read, type⟩
    constructor
    · intro linked
      rcases (reads row).mp ⟨target, linked, read, type⟩ with ⟨other, member, found, _⟩
      rwa [same read found]
    · intro member
      rcases (reads row).mpr ⟨target, member, read, type⟩ with ⟨other, linked, found, _⟩
      rwa [same read found]
  · intro matched row
    constructor
    · rintro ⟨target, linked, read, type⟩
      exact ⟨target, (matched target ⟨row, read, type⟩).mp linked, read, type⟩
    · rintro ⟨target, member, read, type⟩
      exact ⟨target, (matched target ⟨row, read, type⟩).mpr member, read, type⟩

theorem forwardLinks_eq_nil (keyed : store.Keyed)
    (unlinked : ∀ rowId target, ¬Linked relationship sourceId store rowId target) :
    forwardLinks collation relationship sourceId store = [] := by
  rw [List.eq_nil_iff_forall_not_mem]
  exact fun link member => unlinked _ _ ((mem_forwardLinks keyed link).mp member)

theorem head?_forwardLinks {store : LinkStore} (keyed : store.Keyed) {target : String}
    (linked : LinkedTo relationship sourceId store target)
    (ahead : ∀ other, LinkedTo relationship sourceId store other →
      other = target ∨ collation.localeCompare target other = .lt) :
    ∃ link, (forwardLinks collation relationship sourceId store).head? = some link ∧
      link.targetId = target := by
  have entries : ∀ row, row ∈ ((store.forwardIndex.get? (linksKey relationship sourceId)).getD
      .empty).entries ↔ Linked relationship sourceId store row.1 row.2 := by
    intro row
    rw [← @mem_forwardLinks collation _ _ _ keyed ⟨row.1, row.2⟩, forwardLinks, liveIndexRows,
      List.mem_map]
    simp only [List.mem_insertionSort, RelationshipLink.mk.injEq]
    constructor
    · exact fun member => ⟨row, member, rfl, rfl⟩
    · rintro ⟨other, member, first, second⟩
      rwa [← Prod.ext first second]
  have present : ∃ row ∈ ((store.forwardIndex.get? (linksKey relationship sourceId)).getD
      .empty).entries, row.2 = target := by
    rcases linked with ⟨rowId, linked⟩
    exact ⟨(rowId, target), (entries _).mpr linked, rfl⟩
  rcases head?_insertionSort collation.indexRowLe (fun row => row.2 = target) present
    (by
      intro row _ other member here elsewhere
      have after := (ahead other.2 ⟨other.1, (entries other).mp member⟩).resolve_left elsewhere
      have before := collation.oriented target other.2
      rw [after] at before
      have different : row.2 ≠ other.2 := by
        rw [here]
        exact fun same => elsewhere same.symm
      rw [IdCollation.indexRowLe, IdCollation.indexRowLe, if_neg different, if_neg different.symm,
        here, after, before]
      decide) with ⟨row, leads, here⟩
  refine ⟨⟨row.1, row.2⟩, ?_, here⟩
  rw [forwardLinks, liveIndexRows, List.head?_map, leads]
  rfl

/-! ## Steps -/

theorem SourceLive.congr {before after : LinkStore}
    (live : SourceLive relationship sourceId before)
    (same : after.rows.get? sourceId = before.rows.get? sourceId) :
    SourceLive relationship sourceId after := by
  rw [SourceLive, same]
  exact live

theorem loadTarget_of_first (live : SourceLive relationship sourceId store)
    {link : RelationshipLink}
    (first : (forwardLinks collation relationship sourceId store).head? = some link) :
    forwardOne collation relationship sourceId store = loadTarget store link.targetId := by
  rw [forwardOne_of_live live]
  cases links : forwardLinks collation relationship sourceId store with
  | nil =>
      rw [links] at first
      cases first
  | cons head rest =>
      rw [links] at first
      cases first
      rfl

theorem forwardOne_null (live : SourceLive relationship sourceId store)
    (none : forwardLinks collation relationship sourceId store = []) :
    forwardOne collation relationship sourceId store = .null := by
  rw [forwardOne_of_live live, none]

theorem ReadsTargets.congr {others : List String}
    (reads : ReadsTargets collation relationship sourceId store targets)
    (same : ∀ target, target ∈ others ↔ target ∈ targets) :
    ReadsTargets collation relationship sourceId store others := by
  unfold ReadsTargets at reads ⊢
  split at reads
  · rcases reads with ⟨rfl, null⟩ | ⟨target, only, first⟩
    · left
      refine ⟨?_, null⟩
      rw [List.eq_nil_iff_forall_not_mem]
      exact fun target member => absurd ((same target).mp member) List.not_mem_nil
    · exact .inr ⟨target, fun other => (same other).trans (only other), first⟩
  · intro row
    simp only [reads row, same]

structure Tracks (collation : IdCollation) (relationship : DeclaredRelationship)
    (sourceId : String) (session : LinkSession) : Prop where
  keyed : session.store.Keyed
  live : SourceLive relationship sourceId session.store
  exact : Exact collation relationship sourceId session
  one : relationship.sourceCardinality = .one → session.written = false

theorem reads_link (one : relationship.sourceCardinality = .one) {store : LinkStore}
    (keyed : store.Keyed) (live : SourceLive relationship sourceId store)
    {rowId target updateId : String} (absent : store.rows.get? rowId = none)
    (ahead : ∀ link ∈ forwardLinks collation relationship sourceId store,
      link.targetId = target ∨ collation.localeCompare target link.targetId = .lt)
    (hlc : HLCTimestamp) (gsn : Nat) :
    ∀ after, after = store.write hlc gsn (buildRelationshipUpdate rowId sourceId (some target)
        relationship.accessor relationship.wireTypeFor updateId) →
      after.Keyed ∧ SourceLive relationship sourceId after ∧
        ReadsTargets collation relationship sourceId after [target] := by
  rintro after rfl
  have afterKeyed := keyed.write hlc gsn (buildRelationshipUpdate rowId sourceId (some target)
    relationship.accessor relationship.wireTypeFor updateId)
  have afterLive : SourceLive relationship sourceId (store.write hlc gsn
      (buildRelationshipUpdate rowId sourceId (some target) relationship.accessor
        relationship.wireTypeFor updateId)) := by
    apply live.congr
    rw [LinkStore.get?_rows_write_of (subjectId_buildRelationshipUpdate rowId _ _ _ _ _)]
    rw [if_neg]
    rintro rfl
    rcases live with ⟨row, held, _⟩
    rw [absent] at held
    cases held
  refine ⟨afterKeyed, afterLive, ?_⟩
  have linked := @linked_put relationship sourceId store rowId target updateId absent hlc gsn
  rcases @head?_forwardLinks collation relationship sourceId _ afterKeyed target
    ⟨rowId, (linked rowId target).mpr (.inl ⟨rfl, rfl⟩)⟩
    (by
      rintro other ⟨otherId, holds⟩
      rcases (linked otherId other).mp holds with ⟨_, same⟩ | holds
      · exact .inl same
      · exact ahead ⟨otherId, other⟩ ((mem_forwardLinks keyed _).mpr holds)) with
    ⟨link, first, same⟩
  simp only [ReadsTargets, one]
  refine .inr ⟨target, fun other => List.mem_singleton, ?_⟩
  rw [loadTarget_of_first afterLive first, same]

theorem reads_unlink (one : relationship.sourceCardinality = .one) {store : LinkStore}
    (keyed : store.Keyed) (live : SourceLive relationship sourceId store)
    {link : RelationshipLink} {updateId : String}
    (only : forwardLinks collation relationship sourceId store = [link])
    (hlc : HLCTimestamp) (gsn : Nat) :
    ∀ after, after = store.write hlc gsn (buildRelationshipUpdate link.relationshipId sourceId none
        relationship.accessor relationship.wireTypeFor updateId) →
      after.Keyed ∧ SourceLive relationship sourceId after ∧
        ReadsTargets collation relationship sourceId after [] := by
  rintro after rfl
  have afterKeyed := keyed.write hlc gsn (buildRelationshipUpdate link.relationshipId sourceId
    none relationship.accessor relationship.wireTypeFor updateId)
  have listed : link ∈ forwardLinks collation relationship sourceId store := by
    rw [only]
    exact List.mem_cons_self
  have afterLive : SourceLive relationship sourceId (store.write hlc gsn
      (buildRelationshipUpdate link.relationshipId sourceId none relationship.accessor
        relationship.wireTypeFor updateId)) := by
    apply live.congr
    rw [LinkStore.get?_rows_write_of
      (subjectId_buildRelationshipUpdate link.relationshipId _ _ _ _ _), if_neg]
    intro same
    have held := (mem_forwardLinks keyed link).mp listed
    rw [← same] at held
    exact live.not_linked _ held
  refine ⟨afterKeyed, afterLive, ?_⟩
  have none : forwardLinks collation relationship sourceId (store.write hlc gsn
      (buildRelationshipUpdate link.relationshipId sourceId none relationship.accessor
        relationship.wireTypeFor updateId)) = [] := by
    apply forwardLinks_eq_nil afterKeyed
    intro rowId target linked
    rcases (linked_delete hlc gsn rowId target).mp linked with ⟨different, held⟩
    have member := (@mem_forwardLinks collation _ _ _ keyed ⟨rowId, target⟩).mpr held
    rw [only, List.mem_singleton] at member
    subst member
    exact different rfl
  simp only [ReadsTargets, one]
  exact .inl ⟨trivial, forwardOne_null afterLive none⟩

/-! ## Sets -/

theorem lookup_mergeFields_patch {fields : Fields Term} {update : Update Term} {name : String}
    {leaf : FieldLeaf Term} (data : update.data = some [(name, .leaf leaf)])
    (positive : 0 < leaf.time)
    (later : ∀ stored, fields.lookup name = some (.leaf stored) → stored.time < leaf.time) :
    (mergeFields fields update).lookup name = some (.leaf leaf) := by
  have written : (FieldValue.leaf leaf).writesNew name = true := by
    rw [FieldValue.writesNew, decide_eq_true positive, Bool.or_true]
  rw [mergeFields, readFields, data, Option.getD_some, mergeEntries, written, Bool.or_true,
    if_pos rfl, mergeEntries, lookup_setEntry_self]
  cases held : fields.lookup name with
  | none => rfl
  | some stored =>
      cases stored with
      | map entries => rfl
      | leaf stored =>
          have before := later stored held
          rw [mergeFieldValue, mergeLeaf, if_pos before]

theorem patched_source {store : LinkStore} (live : SourceLive relationship sourceId store)
    {ids : List String} {updateId : String} {hlc : HLCTimestamp}
    (later : ∀ row ∈ store.rows.get? sourceId, storedTime row relationship.accessor < hlc)
    (gsn : Nat) :
    ∃ row, (store.write hlc gsn (buildManyEntityUpdate sourceId relationship.source
        relationship.accessor ids updateId hlc)).rows.get? sourceId = some row ∧
      row.deletedHlc = none ∧ row.type = relationship.source ∧
      row.fields.lookup relationship.accessor =
        some (.leaf { value := .list (ids.map .string), updateId, hlc := some hlc }) := by
  rcases live with ⟨row, held, present, type⟩
  have written : (store.write hlc gsn (buildManyEntityUpdate sourceId relationship.source
      relationship.accessor ids updateId hlc)).rows.get? sourceId =
        applyUpdate (some row) (buildManyEntityUpdate sourceId relationship.source
          relationship.accessor ids updateId hlc) gsn hlc := by
    rw [@LinkStore.get?_rows_write_of store _ sourceId rfl, if_pos rfl, held]
  have notDeleted : row.deletedHlc.isSome = false := by
    rw [present]
    rfl
  simp only [applyUpdate, buildManyEntityUpdate, notDeleted, Bool.false_eq_true, if_false]
    at written
  refine ⟨_, written, present, type, ?_⟩
  have before := later row held
  apply lookup_mergeFields_patch rfl (Nat.zero_lt_of_lt before)
  intro stored found
  rw [storedTime, found] at before
  exact before

/-- A set of links on a many-cardinality relationship: what is read and what is stored. -/
structure SetWritten (relationship : DeclaredRelationship) (sourceId : String)
    (before after : LinkStore) (listed targets : List String) : Prop where
  keyed : after.Keyed
  live : SourceLive relationship sourceId after
  linkedTo : ∀ target, LinkedTo relationship sourceId after target ↔
    LinkedTo relationship sourceId before target ∨ target ∈ targets
  liveTarget : ∀ target, LiveTarget relationship after target →
    LiveTarget relationship before target
  stores : StoresTargets relationship sourceId after listed

theorem setWritten {store : LinkStore} (keyed : store.Keyed)
    (live : SourceLive relationship sourceId store) {minted : Minted} {listed targets : List String}
    (later : ∀ row ∈ store.rows.get? sourceId,
      storedTime row relationship.accessor < minted.hlc)
    (fresh : FreshFrom minted store 0 targets.length) (gsn : Nat) :
    SetWritten relationship sourceId store
      (store.writeAll minted.hlc gsn
        (buildManyEntityUpdate sourceId relationship.source relationship.accessor listed
            (minted.updateId 0) minted.hlc ::
          makeManyRelationshipUpdates relationship sourceId minted 0 targets))
      listed targets := by
  rcases @patched_source relationship sourceId store live listed (minted.updateId 0) _ later gsn
    with ⟨source, written, present, type, stored⟩
  have patchedRows := @LinkStore.get?_rows_write_of store (buildManyEntityUpdate sourceId
    relationship.source relationship.accessor listed (minted.updateId 0) minted.hlc) sourceId rfl
    minted.hlc gsn
  have patchedKeyed := keyed.write minted.hlc gsn (buildManyEntityUpdate sourceId
    relationship.source relationship.accessor listed (minted.updateId 0) minted.hlc)
  rw [LinkStore.writeAll, List.foldl_cons]
  generalize store.write minted.hlc gsn (buildManyEntityUpdate sourceId relationship.source
    relationship.accessor listed (minted.updateId 0) minted.hlc) = patched at *
  have outside : ∀ index < targets.length, sourceId ≠ minted.relationshipId index := by
    rintro index last rfl
    rcases live with ⟨row, held, _⟩
    rw [(fresh index (Nat.zero_le _) last).1] at held
    cases held
  have patchedFresh : FreshFrom minted patched 0 (0 + targets.length) := by
    rw [Nat.zero_add]
    intro index first last
    constructor
    · rw [patchedRows, if_neg fun same => outside index last same.symm]
      exact (fresh index first last).1
    · exact (fresh index first last).2
  have puts := @putsAdded relationship sourceId minted minted.hlc gsn patched patchedKeyed
    targets 0 patchedFresh
  rw [LinkStore.writeAll] at puts
  generalize (makeManyRelationshipUpdates relationship sourceId minted 0 targets).foldl
    (fun store update => store.write minted.hlc gsn update) patched = after at *
  have sourceKept : after.rows.get? sourceId = some source := by
    rw [puts.kept sourceId fun index _ last => outside index (by omega), written]
  have patchedLive : SourceLive relationship sourceId patched := ⟨source, written, present, type⟩
  constructor
  case keyed => exact puts.keyed
  case live => exact ⟨source, sourceKept, present, type⟩
  case linkedTo =>
    intro target
    rw [puts.linkedTo]
    have same : LinkedTo relationship sourceId patched target ↔
        LinkedTo relationship sourceId store target := by
      apply exists_congr
      intro rowId
      by_cases here : rowId = sourceId
      · subst here
        exact iff_of_false (patchedLive.not_linked target) (live.not_linked target)
      · apply linked_congr
        rw [patchedRows, if_neg here]
    rw [same]
  case liveTarget =>
    rintro target ⟨row, read, ofType⟩
    rw [LinkStore.readLocalEntity, Option.filter_eq_some_iff] at read
    by_cases here : target = sourceId
    · subst here
      rcases live with ⟨before, held, notDeleted, beforeType⟩
      refine ⟨before, ?_, ?_⟩
      · rw [LinkStore.readLocalEntity, held, Option.filter_some, notDeleted]
        rfl
      · rw [sourceKept] at read
        cases read.1
        rw [beforeType, ← type, ofType]
    · have unminted : ∀ index, 0 ≤ index → index < 0 + targets.length →
          target ≠ minted.relationshipId index := by
        rintro index first last rfl
        rcases puts.added index first last with ⟨added, held, addedType⟩
        rw [read.1] at held
        cases held
        exact relationship.targetDeclared.1 (ofType.symm.trans addedType)
      refine ⟨row, ?_, ofType⟩
      rw [LinkStore.readLocalEntity, Option.filter_eq_some_iff]
      refine ⟨?_, read.2⟩
      rw [← read.1, puts.kept target unminted, patchedRows, if_neg here]
  case stores =>
    exact ⟨source, _, listed, sourceKept, stored, rfl, fun _ => Iff.rfl⟩

/-! ## Runs of verbs -/

theorem resolveUnlinkTarget_eq
    (applies : pointer.targetId ≠ .null ∨ relationship.sourceCardinality = .many)
    (link : Option RelationshipLink) :
    resolveUnlinkTarget relationship pointer link = .notApplicable := by
  unfold resolveUnlinkTarget
  rcases applies with named | many
  · rw [if_pos (.inl named)]
  · rw [many]
    split
    · rfl
    · rfl

theorem tracks_one (keyed : session.store.Keyed)
    (live : SourceLive relationship sourceId session.store)
    (reads : ReadsTargets collation relationship sourceId session.store session.specified)
    (unwritten : session.written = false) : Tracks collation relationship sourceId session where
  keyed := keyed
  live := live
  exact := by
    refine ⟨reads, fun written => ?_⟩
    rw [unwritten] at written
    cases written
  one _ := unwritten

theorem Tracks.idle (one : relationship.sourceCardinality = .one)
    (tracks : Tracks collation relationship sourceId session)
    (undefined : event.verb.pointer.targetId = .undefined)
    (absent : session.store.rows.get? (event.minted.relationshipId 0) = none)
    (same : ∀ target, target ∈ event.verb.specify session.specified ↔ target ∈ session.specified) :
    Tracks collation relationship sourceId
      (session.commit collation relationship sourceId event) := by
  rw [LinkSession.commit, resolveRelationship, resolveUnlinkTarget_eq]
  case applies =>
    rw [undefined]
    exact .inl nofun
  dsimp only
  cases admitted : writeRelationship relationship sourceId event.minted event.verb.pointer none with
  | error message => exact tracks
  | ok updates =>
      have only := updates_of_one one admitted
      rw [undefined] at only
      subst only
      have unchanged : session.store.writeAll event.minted.hlc event.gsn
          [buildRelationshipUpdate (event.minted.relationshipId 0) sourceId none
            relationship.accessor relationship.wireTypeFor (event.minted.updateId 0)] =
          session.store := LinkStore.write_delete_absent rfl absent _ _
      have keyed := tracks.keyed
      have live := tracks.live
      have reads := tracks.exact.1.congr same
      rw [← unchanged] at keyed live reads
      exact tracks_one keyed live reads ((Bool.or_false _).trans (tracks.one one))

theorem Tracks.link (one : relationship.sourceCardinality = .one)
    (tracks : Tracks collation relationship sourceId session) {target : String}
    (verb : event.verb = .link (.id target))
    (absent : session.store.rows.get? (event.minted.relationshipId 0) = none)
    (ahead : ∀ link ∈ forwardLinks collation relationship sourceId session.store, link.targetId =
      target ∨ collation.localeCompare target link.targetId = .lt) :
    Tracks collation relationship sourceId
      (session.commit collation relationship sourceId event) := by
  rw [LinkSession.commit, resolveRelationship, resolveUnlinkTarget_eq, verb]
  case applies =>
    rw [verb]
    exact .inl nofun
  dsimp only
  cases admitted : writeRelationship relationship sourceId event.minted
      (LinkVerb.link (.id target)).pointer none with
  | error message => exact tracks
  | ok updates =>
      have only := updates_of_one one admitted
      subst only
      rcases @reads_link collation relationship sourceId one session.store tracks.keyed tracks.live
        (event.minted.relationshipId 0) target (event.minted.updateId 0) absent ahead
        event.minted.hlc event.gsn _ rfl with ⟨keyed, live, reads⟩
      exact tracks_one keyed live reads ((Bool.or_false _).trans (tracks.one one))

theorem Tracks.unlink (one : relationship.sourceCardinality = .one)
    (tracks : Tracks collation relationship sourceId session)
    (null : event.verb.pointer = { targetId := .null })
    (none : event.verb.specify session.specified = [])
    (single : (forwardLinks collation relationship sourceId session.store).length ≤ 1) :
    Tracks collation relationship sourceId
      (session.commit collation relationship sourceId event) := by
  rw [LinkSession.commit, resolveRelationship, null, none]
  cases links : forwardLinks collation relationship sourceId session.store with
  | nil =>
      simp only [resolveUnlinkTarget, one, List.head?_nil, ne_eq, not_true_eq_false, or_self,
        if_false]
      have reads : ReadsTargets collation relationship sourceId session.store [] := by
        simp only [ReadsTargets, one]
        exact .inl ⟨trivial, forwardOne_null tracks.live links⟩
      exact tracks_one tracks.keyed tracks.live reads ((Bool.or_false _).trans (tracks.one one))
  | cons link rest =>
      have only : rest = [] := by
        rw [links, List.length_cons] at single
        exact List.eq_nil_of_length_eq_zero (by omega)
      subst only
      simp only [resolveUnlinkTarget, one, List.head?_cons, ne_eq, not_true_eq_false, or_self,
        if_false]
      cases admitted : writeRelationship relationship sourceId event.minted { targetId := .null }
          (some link.relationshipId) with
      | error message => exact tracks
      | ok updates =>
          have only := updates_of_one one admitted
          subst only
          rcases @reads_unlink collation relationship sourceId one session.store tracks.keyed
            tracks.live link (event.minted.updateId 0) links event.minted.hlc event.gsn _ rfl with
            ⟨keyed, live, reads⟩
          exact tracks_one keyed live reads ((Bool.or_false _).trans (tracks.one one))

theorem Tracks.refused (many : relationship.sourceCardinality = .many)
    (tracks : Tracks collation relationship sourceId session)
    (without : event.verb.pointer.targetIds = none) :
    Tracks collation relationship sourceId
      (session.commit collation relationship sourceId event) := by
  rw [LinkSession.commit, resolveRelationship, resolveUnlinkTarget_eq (.inr many)]
  dsimp only
  cases admitted : writeRelationship relationship sourceId event.minted event.verb.pointer none with
  | error message => exact tracks
  | ok updates =>
      rcases updates_of_many many admitted with ⟨targetIds, _, given, _⟩
      rw [without] at given
      cases given

theorem Tracks.setLinks (many : relationship.sourceCardinality = .many)
    (tracks : Tracks collation relationship sourceId session) {patch : ManyPointerValue}
    (verb : event.verb = .setLinks patch)
    (possible : event.Possible relationship sourceId session.store)
    (stored : ∀ target, target ∈ namedTargets patch.pointers ↔
      target ∈ event.verb.specify session.specified)
    (kept : ∀ target ∈ session.specified, LiveTarget relationship session.store target →
      target ∈ event.verb.specify session.specified) :
    Tracks collation relationship sourceId
      (session.commit collation relationship sourceId event) := by
  rw [LinkSession.commit, resolveRelationship, resolveUnlinkTarget_eq (.inr many)]
  dsimp only
  cases admitted : writeRelationship relationship sourceId event.minted event.verb.pointer none with
  | error message => exact tracks
  | ok updates =>
      rcases updates_of_many many admitted with ⟨targetIds, targets, given, found, same⟩
      rw [verb] at given
      cases given
      subst same
      have fresh : FreshFrom event.minted session.store 0 targets.length := by
        intro index _ last
        have within : targets.length ≤ event.verb.rowsMinted := by
          rw [verb]
          exact Nat.le_succ_of_le (length_manyTargets found)
        have one := possible.1 index (by omega)
        exact ⟨one.1, fun other _ last => one.2 other (by omega)⟩
      have after := @setWritten relationship sourceId session.store tracks.keyed tracks.live
        event.minted (collectManyTargetIds patch) targets possible.2 fresh event.gsn
      have before := (readsTargets_many many tracks.keyed tracks.live _).mp tracks.exact.1
      constructor
      case keyed => exact after.keyed
      case live => exact after.live
      case exact =>
        constructor
        · refine (readsTargets_many many after.keyed after.live _).mpr ?_
          intro target alive
          have wasAlive := after.liveTarget target alive
          refine (after.linkedTo target).trans ?_
          rw [before target wasAlive, mem_manyTargets found, stored]
          constructor
          · rintro (member | member)
            · exact kept target member wasAlive
            · exact member
          · exact .inr
        · intro _
          rcases after.stores with ⟨row, leaf, ids, held, lookup, value, listed⟩
          refine ⟨row, leaf, ids, held, lookup, value, ?_⟩
          intro target
          rw [listed, collectManyTargetIds, List.mem_eraseDups, stored]
      case one =>
        intro one
        rw [many] at one
        cases one

theorem Tracks.commit (tracks : Tracks collation relationship sourceId session)
    (possible : event.Possible relationship sourceId session.store)
    (needs : NeedsNoOtherDelete collation relationship sourceId session event) :
    Tracks collation relationship sourceId
      (session.commit collation relationship sourceId event) := by
  have absent : session.store.rows.get? (event.minted.relationshipId 0) = none := by
    refine (possible.1 0 ?_).1
    cases event.verb with
    | link target => exact Nat.one_pos
    | unlink => exact Nat.one_pos
    | setLinks patch => exact Nat.succ_pos _
  cases cardinality : relationship.sourceCardinality with
  | one =>
      cases verb : event.verb with
      | link target =>
          cases target with
          | id target =>
              simp only [NeedsNoOtherDelete, cardinality, verb] at needs
              exact tracks.link cardinality verb absent needs
          | null =>
              simp only [NeedsNoOtherDelete, cardinality, verb] at needs
              exact tracks.unlink cardinality (by rw [verb]; rfl) (by rw [verb]; rfl) needs
          | undefined =>
              simp only [NeedsNoOtherDelete, cardinality, verb] at needs
              exact tracks.idle cardinality (by rw [verb]; rfl) absent (by rw [verb]; exact needs)
      | unlink =>
          simp only [NeedsNoOtherDelete, cardinality, verb] at needs
          exact tracks.unlink cardinality (by rw [verb]; rfl) (by rw [verb]; rfl) needs
      | setLinks patch =>
          simp only [NeedsNoOtherDelete, cardinality, verb] at needs
          exact tracks.idle cardinality (by rw [verb]; rfl) absent (by rw [verb]; exact needs)
  | many =>
      cases verb : event.verb with
      | link target => exact tracks.refused cardinality (by rw [verb]; rfl)
      | unlink => exact tracks.refused cardinality (by rw [verb]; rfl)
      | setLinks patch =>
          cases patch with
          | replace targets =>
              simp only [NeedsNoOtherDelete, cardinality, verb] at needs
              refine tracks.setLinks cardinality verb possible ?_ ?_
              · intro target
                rw [verb]
                exact Iff.rfl
              · rintro target member ⟨row, read, type⟩
                rw [verb]
                exact needs target member row read type
          | change add remove =>
              simp only [NeedsNoOtherDelete, cardinality, verb] at needs
              have all : ∀ target, target ∈ namedTargets add ↔
                  target ∈ event.verb.specify session.specified := by
                intro target
                simp only [verb, LinkVerb.specify, needs.1, List.not_mem_nil, not_false_eq_true,
                  decide_true, List.filter_true, List.mem_append]
                constructor
                · exact .inr
                · rintro (member | member)
                  · exact needs.2 target member
                  · exact member
              refine tracks.setLinks cardinality verb possible ?_ ?_
              · intro target
                have both : namedTargets (add ++ remove) = namedTargets add := by
                  have empty : remove.filterMap PointerValue.target? = [] := needs.1
                  rw [namedTargets, namedTargets, List.filterMap_append, empty, List.append_nil]
                rw [ManyPointerValue.pointers, both]
                exact all target
              · exact fun target member _ => (all target).mp (needs.2 target member)

theorem step_linkMachine {start next : LinkSession} :
    (linkMachine collation relationship sourceId start).step session event = some next ↔
      event.Possible relationship sourceId session.store ∧
        session.commit collation relationship sourceId event = next := by
  simp only [linkMachine, Option.ite_none_right_eq_some, Option.some.injEq]

/-- After a run of verbs none of which needed a further row deleted, the accessor reads
exactly the specified targets, and the list stored with the source holds exactly them. -/
theorem linkSets_of_run {start final : LinkSession} {events : List LinkEvent}
    (opens : Opens collation relationship sourceId start)
    (meets : (linkMachine collation relationship sourceId start).Meets
      (NeedsNoOtherDelete collation relationship sourceId) start events)
    (run : (linkMachine collation relationship sourceId start).run start events = some final) :
    Exact collation relationship sourceId final := by
  have initial : Tracks collation relationship sourceId start := by
    constructor
    case keyed => exact opens.keyed
    case live => exact opens.live
    case exact =>
      refine ⟨opens.reads, fun written => ?_⟩
      rw [opens.unwritten] at written
      cases written
    case one => exact fun _ => opens.unwritten
  refine (Machine.run_preserves ?_ initial meets run).exact
  intro session event next tracks needs step
  rcases step_linkMachine.mp step with ⟨possible, rfl⟩
  exact tracks.commit possible needs

end Links

/-! ## A task moved between lists -/

def taskList : DeclaredRelationship where
  source := "todo"
  accessor := "list"
  type := none
  target := "list"
  sourceCardinality := .one
  sourceDeclared := by decide
  targetDeclared := by decide

def byCodePoint : IdCollation where
  localeCompare := compare
  oriented _ _ := Std.OrientedOrd.eq_swap

def putRow (id type : String) : Update Term :=
  { id := "u_" ++ id, subjectId := id, subjectType := type, method := .put, data := none }

def noRows : LinkStore := { rows := .empty, forwardIndex := .empty }

theorem keyed_noRows : noRows.Keyed where
  named := nofun
  indexes id key value := by
    constructor
    · exact fun found => by cases found
    · rintro ⟨entry, found, _⟩
      cases found

def taskStart : LinkSession where
  store := noRows.writeAll 1 1 [putRow "todo_1" "todo", putRow "list_1" "list",
    putRow "list_2" "list"]
  specified := []
  written := false

def linkTask (target : String) : LinkEvent where
  verb := .link (.id target)
  minted := { relationshipId := fun _ => "rel_" ++ target, updateId := fun _ => "u_1", hlc := 2 }
  gsn := 2

theorem opens_taskStart : Opens byCodePoint taskList "todo_1" taskStart where
  keyed := keyed_noRows.writeAll 1 1 _
  live := ⟨_, rfl, rfl, rfl⟩
  reads := .inl ⟨rfl, rfl⟩
  unwritten := rfl

def movedTo (targets : List String) : LinkSession :=
  targets.foldl (fun session target => session.commit byCodePoint taskList "todo_1"
    (linkTask target)) taskStart

theorem run_linkTask {first second : String}
    (firstPossible : (linkTask first).Possible taskList "todo_1" taskStart.store)
    (secondPossible : (linkTask second).Possible taskList "todo_1" (movedTo [first]).store) :
    (linkMachine byCodePoint taskList "todo_1" taskStart).run taskStart
      [linkTask first, linkTask second] = some (movedTo [first, second]) := by
  refine Machine.run_cons.mpr ⟨movedTo [first], step_linkMachine.mpr ⟨firstPossible, rfl⟩, ?_⟩
  exact Machine.run_cons.mpr
    ⟨movedTo [first, second], step_linkMachine.mpr ⟨secondPossible, rfl⟩, rfl⟩

theorem exact_moved_ahead : Exact byCodePoint taskList "todo_1" (movedTo ["list_2", "list_1"]) := by
  refine linkSets_of_run opens_taskStart ?_
    (run_linkTask (by decide +kernel) (by decide +kernel))
  refine ⟨?_, fun next step => ?_⟩
  · change ∀ link ∈ forwardLinks byCodePoint taskList "todo_1" taskStart.store,
      link.targetId = "list_2" ∨ byCodePoint.localeCompare "list_2" link.targetId = .lt
    decide +kernel
  · rcases step_linkMachine.mp step with ⟨_, rfl⟩
    refine ⟨?_, fun _ _ => trivial⟩
    change ∀ link ∈ forwardLinks byCodePoint taskList "todo_1" (movedTo ["list_2"]).store,
      link.targetId = "list_1" ∨ byCodePoint.localeCompare "list_1" link.targetId = .lt
    decide +kernel

def ForwardOne.rowId : ForwardOne → Option String
  | .undefined | .null => none
  | .row entity => some entity.id

/-- A task linked to one list and then to another that sorts after it still reads the
first: the row of the first link stays. -/
theorem moved_behind_reads_first : ∃ final,
    Opens byCodePoint taskList "todo_1" taskStart ∧
      (linkMachine byCodePoint taskList "todo_1" taskStart).run taskStart
        [linkTask "list_1", linkTask "list_2"] = some final ∧
      (forwardOne byCodePoint taskList "todo_1" final.store).rowId = some "list_1" ∧
      final.specified = ["list_2"] ∧ ¬Exact byCodePoint taskList "todo_1" final := by
  have reads : (forwardOne byCodePoint taskList "todo_1"
      (movedTo ["list_1", "list_2"]).store).rowId = some "list_1" := by decide +kernel
  refine ⟨movedTo ["list_1", "list_2"], opens_taskStart,
    run_linkTask (by decide +kernel) (by decide +kernel), reads, by decide +kernel, ?_⟩
  rintro ⟨claimed, _⟩
  have specified : (movedTo ["list_1", "list_2"]).specified = ["list_2"] := by decide +kernel
  rw [specified] at claimed
  rcases claimed with ⟨empty, _⟩ | ⟨target, only, first⟩
  · cases empty
  · have target : target = "list_2" := ((only target).mpr rfl |> List.mem_singleton.mp)
    subst target
    rw [first] at reads
    revert reads
    decide +kernel

end Ebb.Sync
