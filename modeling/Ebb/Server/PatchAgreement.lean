import Ebb.Server.WriteBack
import Mathlib.Data.List.Dedup
import Mathlib.Data.List.Induction

namespace Ebb.Server.EntityStore

/-! The assignments of a write-back against the whole merged document: each writes a part
of it. -/

/-! ## Touched paths -/

mutual

theorem leafPaths_eq_map (pathSoFar : FieldPath) : ∀ value : FieldValue V,
    leafPaths pathSoFar value = (leafPaths [] value).map (pathSoFar ++ ·)
  | .leaf _ => by simp [leafPaths]
  | .map [] => by simp [leafPaths]
  | .map (entry :: rest) => by
      rw [leafPaths, leafPaths, entryPaths_eq_map pathSoFar (entry :: rest)]

theorem entryPaths_eq_map (pathSoFar : FieldPath) : ∀ fields : Fields V,
    entryPaths pathSoFar fields = (entryPaths [] fields).map (pathSoFar ++ ·)
  | [] => by simp [entryPaths]
  | (key, value) :: rest => by
      rw [entryPaths, entryPaths, leafPaths_eq_map (pathSoFar ++ [key]) value,
        leafPaths_eq_map ([] ++ [key]) value, entryPaths_eq_map pathSoFar rest]
      simp [Function.comp_def]

end

theorem leafPaths_ne_nil (pathSoFar : FieldPath) :
    ∀ value : FieldValue V, leafPaths pathSoFar value ≠ []
  | .leaf _ => by simp [leafPaths]
  | .map [] => by simp [leafPaths]
  | .map ((key, value) :: rest) => by
      rw [leafPaths, entryPaths]
      simp [leafPaths_ne_nil (pathSoFar ++ [key]) value]

variable {path : FieldPath} {value : FieldValue V} {top : String}
  {updates : List (CommittedUpdate V)} {base : Fields V}

theorem mem_entryPaths {fields : Fields V} :
    path ∈ entryPaths [] fields ↔
      ∃ entry ∈ fields, ∃ keys ∈ leafPaths [] entry.2, path = entry.1 :: keys := by
  induction fields with
  | nil => simp [entryPaths]
  | cons entry rest induction =>
      rcases entry with ⟨key, value⟩
      rw [entryPaths, List.mem_append, induction, leafPaths_eq_map ([] ++ [key])]
      simp [eq_comm]

theorem mem_leafPaths_map {entries : Fields V} {key : String}
    (found : entries.lookup key = some value) {keys : FieldPath}
    (member : keys ∈ leafPaths [] value) : key :: keys ∈ leafPaths [] (.map entries) := by
  have inEntries : key :: keys ∈ entryPaths [] entries :=
    mem_entryPaths.mpr ⟨_, mem_of_lookup_eq_some found, keys, member, rfl⟩
  cases entries with
  | nil => cases found
  | cons entry rest => exact inEntries

theorem at_mergeBy_of_apart (rule : FieldLeaf V → FieldLeaf V → FieldLeaf V)
    {existing : Option (FieldValue V)} {incoming : FieldValue V} (keyed : incoming.Keyed)
    (apart : ∀ touched ∈ leafPaths [] incoming, ¬ Aligned touched path) :
    (mergeBy rule existing incoming).at path = nodeAt existing path := by
  induction path generalizing existing incoming with
  | nil =>
      rcases List.exists_mem_of_ne_nil _ (leafPaths_ne_nil [] incoming) with ⟨touched, member⟩
      exact absurd (aligned_nil_right touched) (apart touched member)
  | cons key path induction =>
      cases incoming with
      | leaf leaf => exact absurd (aligned_nil_left _) (apart [] (by simp [leafPaths]))
      | map incoming =>
          rcases mergeBy_map rule keyed.1 existing with ⟨merged, mergedEq, mergedLookup⟩
          have below : nodeAt ((existingEntries existing).lookup key) path =
              nodeAt existing (key :: path) := by
            rcases existing with _ | ⟨_⟩ | ⟨entries⟩
            · rfl
            · rfl
            · exact (at_map_cons entries key path).symm
          rw [mergedEq, at_map_cons, mergedLookup, ← below]
          cases found : incoming.lookup key with
          | none => rfl
          | some value =>
              apply induction (fieldsKeyed_lookup keyed.2 found)
              intro touched member aligned
              exact apart (key :: touched) (mem_leafPaths_map found member)
                ((aligned_cons_cons _ _ _ _).mpr ⟨rfl, aligned⟩)

/-! ## The values patches carry for one field -/

def mergeOnto (existing : Option (FieldValue V)) (incoming : FieldValue V) :
    Option (FieldValue V) :=
  some (mergeBy FieldMerge.leafWinner existing incoming)

theorem foldl_mergeOnto_maps {values : List (FieldValue V)} {entries : Fields V}
    (keyed : ∀ value ∈ values, value.Keyed) (maps : ∀ value ∈ values, isMapField value = true) :
    ∃ merged, values.foldl mergeOnto (some (.map entries)) = some (.map merged) ∧
      ∀ keys, (∀ value ∈ values, ∀ touched ∈ leafPaths [] value,
        touched ≠ [] → ¬ Aligned touched keys) →
          (FieldValue.map merged).at keys = (FieldValue.map entries).at keys := by
  induction values generalizing entries with
  | nil => exact ⟨entries, rfl, fun _ _ => rfl⟩
  | cons value rest induction =>
      cases value with
      | leaf leaf => exact absurd (maps _ List.mem_cons_self) (by simp [isMapField])
      | map incoming =>
          have incomingKeyed := keyed _ List.mem_cons_self
          rcases mergeBy_map FieldMerge.leafWinner incomingKeyed.1 (some (.map entries)) with
            ⟨next, nextEq, _⟩
          rcases @induction next (fun other member => keyed other (List.mem_cons_of_mem _ member))
            (fun other member => maps other (List.mem_cons_of_mem _ member)) with
            ⟨merged, mergedEq, apart⟩
          refine ⟨merged, ?_, fun keys clear => ?_⟩
          · rw [List.foldl_cons, mergeOnto, nextEq, mergedEq]
          · rw [apart keys fun other member => clear other (List.mem_cons_of_mem _ member),
              ← nextEq]
            cases incoming with
            | nil => rw [mergeBy, mergeEntriesBy]
            | cons entry others =>
                apply at_mergeBy_of_apart FieldMerge.leafWinner incomingKeyed
                intro touched member
                apply clear _ List.mem_cons_self touched member
                rcases mem_entryPaths.mp member with ⟨_, _, _, _, rfl⟩
                exact List.cons_ne_nil _ _

theorem foldl_mergeOnto_leaf {values : List (FieldValue V)} {leaf : FieldLeaf V}
    (last : values.getLast? = some (.leaf leaf)) (existing : Option (FieldValue V)) :
    ∃ merged, values.foldl mergeOnto existing = some (.leaf merged) := by
  induction values using List.reverseRecOn with
  | nil => cases last
  | append_singleton rest value _ =>
      rw [List.getLast?_concat] at last
      cases last
      rw [List.foldl_concat, mergeOnto]
      rcases mergeBy_leaf FieldMerge.leafWinner (rest.foldl mergeOnto existing) leaf with
        ⟨merged, equal⟩
      exact ⟨merged, by rw [equal]⟩

/-! ## The assignments of one field -/

theorem hasAt_of_navigateMap {found : FieldValue V} {keys : List String}
    (navigated : navigateMap value keys = some found) : value.HasAt keys found := by
  induction keys generalizing value with
  | nil =>
      rw [navigateMap] at navigated
      cases navigated
      exact fun _ => rfl
  | cons key keys induction =>
      cases value with
      | leaf leaf => cases navigated
      | map entries =>
          rw [navigateMap] at navigated
          split at navigated
          · cases navigated
          · next child found =>
              intro below
              rw [List.cons_append, at_map_cons, found]
              exact induction navigated below

theorem descendMap_of_leaf {before path : List String} (within : before <+: path)
    {leaf : FieldLeaf V} (standing : value.at before = some (.leaf leaf)) :
    descendMap value path = .blocked ∨ descendMap value path = .found (.leaf leaf) := by
  induction path generalizing value before with
  | nil =>
      rw [List.prefix_nil.mp within] at standing
      cases value with
      | leaf standingLeaf =>
          cases standing
          exact .inr rfl
      | map entries => cases standing
  | cons key path induction =>
      cases value with
      | leaf standingLeaf => exact .inl rfl
      | map entries =>
          cases before with
          | nil => cases standing
          | cons other before =>
              rcases List.cons_prefix_cons.mp within with ⟨rfl, inner⟩
              rw [at_map_cons] at standing
              cases found : entries.lookup other with
              | none =>
                  rw [found] at standing
                  cases standing
              | some child =>
                  rw [found] at standing
                  rw [descendMap, found]
                  exact induction inner standing

theorem openAt_of_compatible {entries : Fields V} {keys : List String}
    (compatible : baseNestedCompatible (.map entries) keys = true) :
    (FieldValue.map entries).OpenAt keys := by
  intro before within proper leaf standing
  rcases within with ⟨rest, rfl⟩
  have nonempty : rest ≠ [] := by
    intro empty
    rw [empty, List.append_nil] at proper
    exact proper rfl
  have within : before <+: (before ++ rest).dropLast := by
    rw [List.dropLast_append_of_ne_nil nonempty]
    exact List.prefix_append _ _
  have blocked := descendMap_of_leaf within standing
  rw [baseNestedCompatible] at compatible
  · rcases blocked with blocked | found
    · simp [blocked] at compatible
    · simp [found, isMapField] at compatible
  · -- Above a single key there is only the map itself.
    intro key single
    rcases List.append_eq_singleton_iff.mp single with ⟨empty, _⟩ | ⟨_, empty⟩
    · rw [empty] at standing
      cases standing
    · exact nonempty empty

/-- An assignment writes a part of the merged field and finds no leaf in its
way. -/
def Assigns (baseField : Option (FieldValue V)) (mergedField : FieldValue V) (top : String)
    (assignment : Assignment V) : Prop :=
  ∃ keys, assignment.1 = top :: keys ∧ mergedField.HasAt keys assignment.2 ∧
    ∀ before, before <+: keys → before ≠ keys → ∀ leaf,
      nodeAt baseField before ≠ some (.leaf leaf)

theorem assigns_whole (baseField : Option (FieldValue V)) (mergedField : FieldValue V)
    (top : String) : Assigns baseField mergedField top ([top], mergedField) := by
  refine ⟨[], rfl, fun _ => rfl, ?_⟩
  intro before within proper
  exact absurd (List.prefix_nil.mp within) proper

/-- The field is assigned whole, or each of its nested paths is assigned while it
is a map in the base and in the result. -/
structure AssignsField (top : String) (baseField : Option (FieldValue V))
    (mergedField : FieldValue V) (paths : List FieldPath) (assigned : List (Assignment V)) :
    Prop where
  sound : ∀ assignment ∈ assigned, Assigns baseField mergedField top assignment
  reaches : ([top], mergedField) ∈ assigned ∨
    isMapField mergedField = true ∧ (∃ entries, baseField = some (.map entries)) ∧
      ∀ path ∈ paths, path.length ≠ 1 → ∃ value, (path, value) ∈ assigned

theorem AssignsField.whole (top : String) (baseField : Option (FieldValue V))
    (mergedField : FieldValue V) (paths : List FieldPath) :
    AssignsField top baseField mergedField paths [([top], mergedField)] where
  sound := by
    intro assignment member
    rw [List.mem_singleton.mp member]
    exact assigns_whole baseField mergedField top
  reaches := .inl List.mem_cons_self

theorem assignsField_nestedPathFields {top : String} {entries : Fields V}
    {mergedField : FieldValue V} {paths : List FieldPath} (isMap : isMapField mergedField = true)
    (headed : ∀ path ∈ paths, ∃ keys, path = top :: keys) :
    AssignsField top (some (.map entries)) mergedField paths
      (nestedPathFields top (.map entries) mergedField paths) := by
  rw [nestedPathFields]
  split
  · next holds =>
      simp only [Bool.and_eq_true, List.all_eq_true] at holds
      rcases holds with ⟨compatible, navigable⟩
      refine ⟨?_, .inr ⟨isMap, ⟨entries, rfl⟩, ?_⟩⟩
      · intro assignment member
        rcases List.mem_filterMap.mp member with ⟨value, inValues, found⟩
        rcases List.mem_map.mp inValues with ⟨path, inPaths, rfl⟩
        rcases Option.map_eq_some_iff.mp found with ⟨part, navigated, rfl⟩
        rcases headed path inPaths with ⟨keys, rfl⟩
        exact ⟨keys, rfl, hasAt_of_navigateMap navigated,
          openAt_of_compatible (compatible _ inPaths)⟩
      · intro path inPaths _
        have inValues : (path, navigateMap mergedField path.tail) ∈
            paths.map fun path => (path, navigateMap mergedField path.tail) :=
          List.mem_map.mpr ⟨path, inPaths, rfl⟩
        rcases Option.isSome_iff_exists.mp (navigable _ inValues) with ⟨part, navigated⟩
        refine ⟨part, List.mem_filterMap.mpr ⟨_, inValues, ?_⟩⟩
        rw [navigated]
        rfl
  · exact AssignsField.whole top _ mergedField paths

theorem assignsField_patchFields {top : String} {mergedField : FieldValue V}
    {paths : List FieldPath} (headed : ∀ path ∈ paths, ∃ keys, path = top :: keys)
    (baseField : Option (FieldValue V)) :
    AssignsField top baseField mergedField paths
      (patchFields top baseField mergedField paths) := by
  rcases baseField with _ | ⟨leaf⟩ | ⟨entries⟩
  · simp only [patchFields, ite_self]
    exact AssignsField.whole top _ mergedField paths
  · simp only [patchFields, ite_self]
    exact AssignsField.whole top _ mergedField paths
  · simp only [patchFields]
    split
    · next holds =>
        have nested := @assignsField_nestedPathFields V top entries mergedField
          (paths.filter fun path => path.length ≠ 1) (Bool.and_eq_true_iff.mp holds).1
          fun path member => headed path (List.mem_of_mem_filter member)
        refine ⟨nested.sound, nested.reaches.imp_right fun reaches => ?_⟩
        refine ⟨reaches.1, reaches.2.1, fun path member deep => ?_⟩
        exact reaches.2.2 path (List.mem_filter.mpr ⟨member, by simpa using deep⟩) deep
    · exact AssignsField.whole top _ mergedField paths

/-! ## Replaying patches -/

def carried (updates : List (CommittedUpdate V)) (top : String) : List (FieldValue V) :=
  updates.filterMap fun committed =>
    if committed.update.method = .patch then (stampedFields committed.update).lookup top else none

def Keyed (committed : CommittedUpdate V) : Prop :=
  (FieldValue.map (stampedFields committed.update)).Keyed

theorem carried_keyed (keyed : ∀ committed ∈ updates, Keyed committed)
    (member : value ∈ carried updates top) : value.Keyed := by
  rcases List.mem_filterMap.mp member with ⟨committed, inUpdates, found⟩
  split at found
  · exact fieldsKeyed_lookup (keyed committed inUpdates).2 found
  · cases found

theorem entryPaths_eq_flatMap (fields : Fields V) :
    (fields.flatMap fun (field, incoming) => leafPaths [field] incoming) =
      entryPaths [] fields := by
  induction fields with
  | nil => rfl
  | cons entry rest induction =>
      rcases entry with ⟨key, value⟩
      rw [List.flatMap_cons, induction, entryPaths]
      rfl

/-- What a history without a put has done to the accumulators, field by field. -/
structure Patched (updates : List (CommittedUpdate V)) (base : Fields V) (acc : Replay V) :
    Prop where
  dataMode : acc.dataMode = .patch
  lookup : ∀ top, acc.data.lookup top = (carried updates top).foldl mergeOnto (base.lookup top)
  changed : ∀ path, path ∈ acc.changed ↔
    ∃ top, ∃ value ∈ carried updates top, ∃ keys ∈ leafPaths [] value, path = top :: keys

theorem patched_foldl (noPut : ∀ committed ∈ updates, committed.update.method ≠ .put)
    (keyed : ∀ committed ∈ updates, Keyed committed) (base : Fields V) :
    Patched updates base (updates.foldl applyCommitted (.initial base)) := by
  induction updates using List.reverseRecOn with
  | nil => exact ⟨rfl, fun _ => rfl, by simp [carried, Replay.initial]⟩
  | append_singleton rest committed induction =>
      have before := induction (fun other member => noPut other (List.mem_append_left _ member))
        fun other member => keyed other (List.mem_append_left _ member)
      have here := keyed committed (List.mem_append_right _ List.mem_cons_self)
      have split : ∀ top, carried (rest ++ [committed]) top =
          carried rest top ++ carried [committed] top := fun top => List.filterMap_append
      rw [List.foldl_concat]
      cases method : committed.update.method with
      | put => exact absurd method (noPut committed (List.mem_append_right _ List.mem_cons_self))
      | delete =>
          have silent : ∀ top, carried [committed] top = [] := by simp [carried, method]
          simp only [applyCommitted, method, applyDelete]
          refine ⟨before.dataMode, fun top => ?_, fun path => ?_⟩
          · rw [split, silent, List.append_nil]
            exact before.lookup top
          · simp only [split, silent, List.append_nil]
            exact before.changed path
      | patch =>
          have one : ∀ top, carried [committed] top =
              ((stampedFields committed.update).lookup top).toList := by
            intro top
            cases found : (stampedFields committed.update).lookup top <;>
              simp [carried, method, found]
          simp only [applyCommitted, method, applyPatch]
          refine ⟨before.dataMode, fun top => ?_, fun path => ?_⟩
          · rw [foldl_mergeField_eq, FieldMerge.mergeMaps_eq_mergeEntriesBy,
              lookup_mergeEntriesBy FieldMerge.leafWinner here.1, before.lookup, split,
              List.foldl_append, one]
            cases (stampedFields committed.update).lookup top <;> rfl
          · rw [List.mem_append, before.changed, entryPaths_eq_flatMap, mem_entryPaths]
            simp only [split, List.mem_append, one]
            constructor
            · rintro (⟨top, value, member, keys, touched, rfl⟩ | ⟨entry, member, keys, touched, rfl⟩)
              · exact ⟨top, value, .inl member, keys, touched, rfl⟩
              · have found := (lookup_eq_some_iff_mem here.1 entry.1 entry.2).mpr member
                exact ⟨entry.1, entry.2, .inr (by simp [found]), keys, touched, rfl⟩
            · rintro ⟨top, value, member | member, keys, touched, rfl⟩
              · exact .inl ⟨top, value, member, keys, touched, rfl⟩
              · have found := Option.mem_toList.mp member
                exact .inr ⟨(top, value), mem_of_lookup_eq_some found, keys, touched, rfl⟩

/-! ## The written document -/

/-- No field of the base loses its map on the way to a later map: the patches
carry it as maps alone, or as a leaf at last. -/
def KeepsMaps (base : Fields V) (updates : List (CommittedUpdate V)) : Prop :=
  ∀ field ∈ base, isMapField field.2 = true →
    (∀ value ∈ carried updates field.1, isMapField value = true) ∨
      ((carried updates field.1).getLast?.all fun value => !isMapField value) = true

instance (base : Fields V) (updates : List (CommittedUpdate V)) :
    Decidable (KeepsMaps base updates) :=
  inferInstanceAs (Decidable (∀ field ∈ base, _ → _))

theorem headed_of_mem_filter {changed : List FieldPath}
    (member : path ∈ changed.filter fun path => path.head? = some top) :
    ∃ keys, path = top :: keys := by
  have headed : path.head? = some top := by simpa using (List.mem_filter.mp member).2
  cases path with
  | nil => cases headed
  | cons other keys =>
      cases headed
      exact ⟨keys, rfl⟩

theorem assigns_of_mem {changed : List FieldPath} {merged : Fields V} {assignment : Assignment V}
    (member : assignment ∈ buildPatchFields changed base merged) :
    ∃ top mergedField, merged.lookup top = some mergedField ∧
      Assigns (base.lookup top) mergedField top assignment := by
  rcases List.mem_flatMap.mp member with ⟨top, inTops, inField⟩
  cases found : merged.lookup top with
  | none => simp [found] at inField
  | some mergedField =>
      refine ⟨top, mergedField, found, ?_⟩
      rw [found] at inField
      have field := @assignsField_patchFields V top mergedField
        (changed.filter fun path => path.head? = some top) (fun _ => headed_of_mem_filter)
        (base.lookup top)
      exact field.sound assignment inField

theorem Assigns.parts {merged : Fields V} {mergedField : FieldValue V}
    (found : merged.lookup top = some mergedField) {assignment : Assignment V}
    (assigns : Assigns (base.lookup top) mergedField top assignment) :
    assignment.1 ≠ [] ∧ (FieldValue.map merged).HasAt assignment.1 assignment.2 ∧
      (FieldValue.map base).OpenAt assignment.1 := by
  rcases assigns with ⟨keys, path, has, opened⟩
  rw [path]
  refine ⟨List.cons_ne_nil _ _, ?_, ?_⟩
  · intro below
    rw [List.cons_append, at_map_cons, found]
    exact has below
  · intro before within proper leaf standing
    cases before with
    | nil => cases standing
    | cons other before =>
        rcases List.cons_prefix_cons.mp within with ⟨rfl, inner⟩
        rw [at_map_cons] at standing
        exact opened before inner (by simpa using proper) leaf standing

theorem Patched.touched {acc : Replay V} (patched : Patched updates base acc)
    (carries : carried updates top ≠ []) :
    (∃ keys, top :: keys ∈ acc.changed) ∧ ∃ mergedField, acc.data.lookup top =
      some mergedField := by
  constructor
  · rcases List.exists_mem_of_ne_nil _ carries with ⟨value, member⟩
    rcases List.exists_mem_of_ne_nil _ (leafPaths_ne_nil [] value) with ⟨keys, touched⟩
    exact ⟨keys, (patched.changed _).mpr ⟨top, value, member, keys, touched, rfl⟩⟩
  · rw [patched.lookup, ← List.dropLast_append_getLast carries, List.foldl_concat]
    exact ⟨_, rfl⟩

end Ebb.Server.EntityStore
