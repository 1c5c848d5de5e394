import Ebb.Server.PatchAgreement
import Mathlib.Data.List.DropRight

namespace Ebb.Server.EntityStore

/-! When the assignments of a write-back write the merged document. A map of the base that the
patches replace by a leaf, and then by a map again, is lost in the merge; below the paths that
are not assigned it stays in the table. -/

/-! ## The paths that the carried values touch -/

def touchedKeys (values : List (FieldValue V)) : List (List String) :=
  (values.flatMap (leafPaths [])).filter fun keys => keys ≠ []

variable {keys : List String} {base : Fields V} {updates : List (CommittedUpdate V)}

theorem mem_touchedKeys {values : List (FieldValue V)} :
    keys ∈ touchedKeys values ↔ (∃ value ∈ values, keys ∈ leafPaths [] value) ∧ keys ≠ [] := by
  simp [touchedKeys]

def lastMaps (values : List (FieldValue V)) : List (FieldValue V) :=
  values.rtakeWhile isMapField

theorem touchedKeys_lastMaps {values : List (FieldValue V)}
    (touched : keys ∈ touchedKeys (lastMaps values)) : keys ∈ touchedKeys values := by
  obtain ⟨⟨value, member, inPaths⟩, deep⟩ := mem_touchedKeys.mp touched
  exact mem_touchedKeys.mpr ⟨⟨value, (List.rtakeWhile_suffix _ _).subset member, inPaths⟩, deep⟩

theorem at_map_of_apart {incoming : Fields V} (keyed : (FieldValue.map incoming).Keyed)
    (deep : keys ≠ [])
    (apart : ∀ touched ∈ leafPaths [] (.map incoming), touched ≠ [] → ¬ Aligned touched keys) :
    (FieldValue.map incoming).at keys = none := by
  cases incoming with
  | nil =>
      cases keys with
      | nil => exact absurd rfl deep
      | cons key keys => rfl
  | cons entry rest =>
      have read : (mergeBy FieldMerge.leafWinner none (.map (entry :: rest))).at keys =
          nodeAt none keys := by
        apply at_mergeBy_of_apart FieldMerge.leafWinner keyed
        intro touched member
        apply apart touched member
        obtain ⟨_, _, _, _, rfl⟩ := mem_entryPaths.mp member
        exact List.cons_ne_nil _ _
      rw [mergeBy] at read
      exact read

theorem at_foldl_maps_of_apart {values : List (FieldValue V)}
    (keyed : ∀ value ∈ values, value.Keyed) (maps : ∀ value ∈ values, isMapField value = true)
    {keys : List String} (deep : keys ≠ [])
    (apart : ∀ touched ∈ touchedKeys values, ¬ Aligned touched keys) :
    nodeAt (values.foldl mergeOnto none) keys = none := by
  cases values with
  | nil => rfl
  | cons first rest =>
      cases first with
      | leaf leaf => exact absurd (maps _ List.mem_cons_self) (by simp [isMapField])
      | map incoming =>
          have clear : ∀ value ∈ FieldValue.map incoming :: rest, ∀ touched ∈ leafPaths [] value,
              touched ≠ [] → ¬ Aligned touched keys := fun value member touched inPaths below =>
            apart touched (mem_touchedKeys.mpr ⟨⟨value, member, inPaths⟩, below⟩)
          obtain ⟨merged, mergedEq, same⟩ := @foldl_mergeOnto_maps V rest incoming
            (fun other member => keyed other (List.mem_cons_of_mem _ member))
            fun other member => maps other (List.mem_cons_of_mem _ member)
          rw [List.foldl_cons, mergeOnto, mergeBy, mergedEq]
          exact (same keys fun value member => clear value (List.mem_cons_of_mem _ member)).trans
            (at_map_of_apart (keyed _ List.mem_cons_self) deep (clear _ List.mem_cons_self))

theorem isMap_foldl_lastMaps {values : List (FieldValue V)}
    (keyed : ∀ value ∈ values, value.Keyed) (nonempty : lastMaps values ≠ []) :
    ∃ merged, (lastMaps values).foldl mergeOnto none = some (.map merged) := by
  have maps : ∀ value ∈ lastMaps values, isMapField value = true :=
    fun value member => List.mem_rtakeWhile_imp member
  have within : ∀ value ∈ lastMaps values, value ∈ values :=
    fun value member => (List.rtakeWhile_suffix _ _).subset member
  cases split : lastMaps values with
  | nil => exact absurd split nonempty
  | cons first rest =>
      rw [split] at maps within
      cases first with
      | leaf leaf => exact absurd (maps _ List.mem_cons_self) (by simp [isMapField])
      | map incoming =>
          obtain ⟨merged, mergedEq, _⟩ := @foldl_mergeOnto_maps V rest incoming
            (fun other member => keyed other (within other (List.mem_cons_of_mem _ member)))
            fun other member => maps other (List.mem_cons_of_mem _ member)
          exact ⟨merged, by rw [List.foldl_cons, mergeOnto, mergeBy, mergedEq]⟩

theorem foldl_mergeOnto_lastMaps {values : List (FieldValue V)}
    (mixed : ∃ value ∈ values, isMapField value = false) (ends : lastMaps values ≠ [])
    (existing : Option (FieldValue V)) :
    values.foldl mergeOnto existing = (lastMaps values).foldl mergeOnto none := by
  induction values using List.reverseRecOn with
  | nil => exact absurd rfl ends
  | append_singleton rest value induction =>
      cases value with
      | leaf leaf => exact absurd (List.rtakeWhile_concat_neg _ _ _ (by simp [isMapField])) ends
      | map incoming =>
          have lastEq : lastMaps (rest ++ [.map incoming]) = lastMaps rest ++ [.map incoming] :=
            List.rtakeWhile_concat_pos _ _ _ rfl
          obtain ⟨other, member, isLeaf⟩ := mixed
          have earlier : other ∈ rest := by
            obtain earlier | last := List.mem_append.mp member
            · exact earlier
            · rw [List.mem_singleton.mp last] at isLeaf
              cases isLeaf
          rw [lastEq, List.foldl_concat, List.foldl_concat]
          by_cases further : lastMaps rest = []
          · -- The map follows a leaf directly.
            obtain ⟨init, last, rfl⟩ := List.eq_nil_or_concat' rest |>.resolve_left
              (List.ne_nil_of_mem earlier)
            cases last with
            | map entries =>
                rw [lastMaps, List.rtakeWhile_concat_pos _ _ _ rfl] at further
                exact absurd further (by simp)
            | leaf leaf =>
                obtain ⟨merged, equal⟩ := foldl_mergeOnto_leaf (List.getLast?_concat) existing
                rw [further, equal, List.foldl_nil, mergeOnto, mergeOnto, mergeBy, mergeBy]
          · rw [induction ⟨other, earlier, isLeaf⟩ further]

/-! ## The assignments of one field -/

/-- A nested path is missing from the maps carried last, or a leaf of the base stands in its
way; or no path is nested. Then the field is written whole. -/
def WrittenWhole (entries : Fields V) (values : List (FieldValue V)) : Prop :=
  touchedKeys values = [] ∨
    ∃ keys ∈ touchedKeys values, baseNestedCompatible (.map entries) keys = false ∨
      ∀ merged, (lastMaps values).foldl mergeOnto none = some merged →
        navigateMap merged keys = none

/-- Whatever the base holds below the field is on one line with a touched path. -/
def Covered (entries : Fields V) (values : List (FieldValue V)) : Prop :=
  ∀ keys, (FieldValue.map entries).at keys ≠ none →
    ∃ touched ∈ touchedKeys values, Aligned touched keys

/-- What the patches may carry for a field that is a map in the base. -/
def KeepsField (entries : Fields V) (values : List (FieldValue V)) : Prop :=
  (∀ value ∈ values, isMapField value = true) ∨
    (values.getLast?.all fun value => !isMapField value) = true ∨
      WrittenWhole entries values ∨ Covered entries values

/-- The touched paths that a field's assignments are built from. -/
def FieldPaths (top : String) (values : List (FieldValue V)) (paths : List FieldPath) : Prop :=
  ∀ path, path ∈ paths.filter (fun path => path.length ≠ 1) ↔
    ∃ keys ∈ touchedKeys values, path = top :: keys

section Field

variable {top : String} {entries : Fields V} {values : List (FieldValue V)}
  {paths : List FieldPath} {mergedField : FieldValue V}

theorem patchFields_map (isMap : isMapField mergedField = true) (touches : touchedKeys values ≠ [])
    (fieldPaths : FieldPaths top values paths) :
    patchFields top (some (.map entries)) mergedField paths =
      nestedPathFields top (.map entries) mergedField
        (paths.filter fun path => path.length ≠ 1) := by
  obtain ⟨keys, touched⟩ := List.exists_mem_of_ne_nil _ touches
  have nonempty : (paths.filter (fun path => path.length ≠ 1)).isEmpty = false :=
    List.isEmpty_eq_false_iff.mpr
      (List.ne_nil_of_mem ((fieldPaths _).mpr ⟨keys, touched, rfl⟩))
  simp only [patchFields, isMap, nonempty, Bool.not_false, Bool.and_self, if_true]

theorem mem_nested_of_patchFields (isMap : isMapField mergedField = true)
    (touches : touchedKeys values ≠ []) (fieldPaths : FieldPaths top values paths)
    (compatible : ∀ keys ∈ touchedKeys values, baseNestedCompatible (.map entries) keys = true)
    (navigable : ∀ keys ∈ touchedKeys values, navigateMap mergedField keys ≠ none)
    {assignment : Assignment V}
    (member : assignment ∈ patchFields top (some (.map entries)) mergedField paths) :
    ∃ keys ∈ touchedKeys values, assignment.1 = top :: keys := by
  rw [patchFields_map isMap touches fieldPaths, nestedPathFields, if_pos] at member
  · obtain ⟨value, inValues, found⟩ := List.mem_filterMap.mp member
    obtain ⟨path, inPaths, rfl⟩ := List.mem_map.mp inValues
    obtain ⟨part, _, rfl⟩ := Option.map_eq_some_iff.mp found
    exact (fieldPaths path).mp inPaths
  · simp only [Bool.and_eq_true, List.all_eq_true]
    constructor
    · intro path inPaths
      obtain ⟨keys, touched, rfl⟩ := (fieldPaths path).mp inPaths
      exact compatible keys touched
    · intro value inValues
      obtain ⟨path, inPaths, rfl⟩ := List.mem_map.mp inValues
      obtain ⟨keys, touched, rfl⟩ := (fieldPaths path).mp inPaths
      exact Option.isSome_iff_ne_none.mpr (navigable keys touched)

theorem patchFields_whole (fieldPaths : FieldPaths top values paths)
    (whole : touchedKeys values = [] ∨ ∃ keys ∈ touchedKeys values,
      baseNestedCompatible (.map entries) keys = false ∨ navigateMap mergedField keys = none) :
    patchFields top (some (.map entries)) mergedField paths = [([top], mergedField)] := by
  cases isMap : isMapField mergedField with
  | false => simp [patchFields, isMap]
  | true =>
      obtain none | ⟨keys, touched, fails⟩ := whole
      · have empty : paths.filter (fun path => path.length ≠ 1) = [] := by
          apply List.eq_nil_iff_forall_not_mem.mpr
          intro path member
          obtain ⟨keys, touched, _⟩ := (fieldPaths path).mp member
          rw [none] at touched
          cases touched
        have isEmpty : (paths.filter (fun path => path.length ≠ 1)).isEmpty = true := by
          rw [empty]
          rfl
        simp only [patchFields, isEmpty, Bool.not_true, Bool.and_false, Bool.false_eq_true, if_false]
      · rw [patchFields_map isMap (List.ne_nil_of_mem touched) fieldPaths, nestedPathFields, if_neg]
        have inPaths := (fieldPaths (top :: keys)).mpr ⟨keys, touched, rfl⟩
        intro holds
        simp only [Bool.and_eq_true, List.all_eq_true] at holds
        obtain fails | fails := fails
        · have compatible := holds.1 _ inPaths
          rw [List.tail_cons, fails] at compatible
          cases compatible
        · have navigable := holds.2 _ (List.mem_map.mpr ⟨_, inPaths, rfl⟩)
          rw [List.tail_cons, fails] at navigable
          cases navigable

end Field

/-- The assignments of a field reach a key or leave it as the merge does. -/
def Reaches (assigned : List (Assignment V)) (top : String) (entries : Fields V)
    (mergedField : FieldValue V) : Prop :=
  ∀ keys, (∃ assignment ∈ assigned, Aligned assignment.1 (top :: keys)) ∨
    (FieldValue.map entries).at keys = mergedField.at keys

theorem reaches_of_whole {assigned : List (Assignment V)} {top : String} {entries : Fields V}
    {mergedField : FieldValue V} (whole : ([top], mergedField) ∈ assigned) :
    Reaches assigned top entries mergedField :=
  fun _ => .inl ⟨_, whole, by simp⟩

section Reach

variable {top : String} {entries : Fields V} {values : List (FieldValue V)}
  {paths : List FieldPath} {mergedField : FieldValue V}

theorem reaches_touched (fieldPaths : FieldPaths top values paths)
    (headed : ∀ path ∈ paths, ∃ keys, path = top :: keys) {keys : List String}
    (reached : ∃ touched ∈ touchedKeys values, Aligned touched keys) :
    ∃ assignment ∈ patchFields top (some (.map entries)) mergedField paths,
      Aligned assignment.1 (top :: keys) := by
  obtain ⟨touched, member, aligned⟩ := reached
  obtain assigned | ⟨_, _, each⟩ :=
    (@assignsField_patchFields V top mergedField paths headed (some (.map entries))).reaches
  · exact ⟨_, assigned, by simp⟩
  · have inPaths := List.mem_filter.mp ((fieldPaths _).mpr ⟨touched, member, rfl⟩)
    obtain ⟨part, assigned⟩ := each _ inPaths.1 (by simpa using inPaths.2)
    exact ⟨_, assigned, (aligned_cons_cons _ _ _ _).mpr ⟨rfl, aligned⟩⟩

theorem reaches_of_maps (keyed : ∀ value ∈ values, value.Keyed)
    (fieldPaths : FieldPaths top values paths)
    (headed : ∀ path ∈ paths, ∃ keys, path = top :: keys)
    (merges : values.foldl mergeOnto (some (.map entries)) = some mergedField)
    (maps : ∀ value ∈ values, isMapField value = true) :
    Reaches (patchFields top (some (.map entries)) mergedField paths) top entries mergedField := by
  intro keys
  by_cases reached : ∃ touched ∈ touchedKeys values, Aligned touched keys
  · exact .inl (reaches_touched fieldPaths headed reached)
  · obtain ⟨merged, mergedEq, apart⟩ := @foldl_mergeOnto_maps V values entries keyed maps
    cases merges.symm.trans mergedEq
    refine .inr (apart keys fun value member touched inPaths deep aligned => reached ?_).symm
    exact ⟨touched, mem_touchedKeys.mpr ⟨⟨value, member, inPaths⟩, deep⟩, aligned⟩

theorem reaches_iff_covered (keyed : ∀ value ∈ values, value.Keyed)
    (fieldPaths : FieldPaths top values paths)
    (headed : ∀ path ∈ paths, ∃ keys, path = top :: keys) (ends : lastMaps values ≠ [])
    (lastMerges : (lastMaps values).foldl mergeOnto none = some mergedField)
    (nested : ¬ WrittenWhole entries values) :
    Reaches (patchFields top (some (.map entries)) mergedField paths) top entries mergedField ↔
      Covered entries values := by
  have touches : touchedKeys values ≠ [] := fun none => nested (.inl none)
  have isMap : isMapField mergedField = true := by
    obtain ⟨merged, equal⟩ := isMap_foldl_lastMaps keyed ends
    cases lastMerges.symm.trans equal
    rfl
  have compatible : ∀ keys ∈ touchedKeys values,
      baseNestedCompatible (.map entries) keys = true := by
    intro keys touched
    by_contra incompatible
    exact nested (.inr ⟨keys, touched, .inl (by simpa using incompatible)⟩)
  have navigable : ∀ keys ∈ touchedKeys values, navigateMap mergedField keys ≠ none := by
    intro keys touched lost
    refine nested (.inr ⟨keys, touched, .inr fun other equal => ?_⟩)
    cases equal.symm.trans lastMerges
    exact lost
  have lost : ∀ keys, (¬ ∃ touched ∈ touchedKeys values, Aligned touched keys) →
      mergedField.at keys = none := by
    intro keys apart
    have deep : keys ≠ [] := by
      rintro rfl
      obtain ⟨touched, member⟩ := List.exists_mem_of_ne_nil _ touches
      exact apart ⟨touched, member, aligned_nil_right touched⟩
    have read := @at_foldl_maps_of_apart V (lastMaps values)
      (fun value member => keyed value ((List.rtakeWhile_suffix _ _).subset member))
      (fun value member => List.mem_rtakeWhile_imp member) keys deep
      fun touched member aligned => apart ⟨touched, touchedKeys_lastMaps member, aligned⟩
    rw [lastMerges] at read
    exact read
  constructor
  · intro reach keys present
    by_contra apart
    obtain ⟨assignment, member, aligned⟩ | same := reach keys
    · obtain ⟨touched, inTouched, path⟩ :=
        mem_nested_of_patchFields isMap touches fieldPaths compatible navigable member
      rw [path] at aligned
      exact apart ⟨touched, inTouched, ((aligned_cons_cons _ _ _ _).mp aligned).2⟩
    · exact present (same.trans (lost keys apart))
  · intro covered keys
    by_cases reached : ∃ touched ∈ touchedKeys values, Aligned touched keys
    · exact .inl (reaches_touched fieldPaths headed reached)
    · right
      rw [lost keys reached]
      by_contra present
      exact reached (covered keys present)

theorem patchFields_reaches_iff (keyed : ∀ value ∈ values, value.Keyed)
    (fieldPaths : FieldPaths top values paths)
    (headed : ∀ path ∈ paths, ∃ keys, path = top :: keys) (carries : values ≠ [])
    (merges : values.foldl mergeOnto (some (.map entries)) = some mergedField) :
    Reaches (patchFields top (some (.map entries)) mergedField paths) top entries mergedField ↔
      KeepsField entries values := by
  by_cases maps : ∀ value ∈ values, isMapField value = true
  · exact iff_of_true (reaches_of_maps keyed fieldPaths headed merges maps) (.inl maps)
  have mixed : ∃ value ∈ values, isMapField value = false := by
    simpa only [not_forall, Bool.not_eq_true, exists_prop] using maps
  cases last : values.getLast? with
  | none => exact absurd (List.getLast?_eq_none_iff.mp last) carries
  | some value =>
      cases value with
      | leaf leaf =>
          obtain ⟨merged, mergedEq⟩ := foldl_mergeOnto_leaf last (some (.map entries))
          cases merges.symm.trans mergedEq
          refine iff_of_true (reaches_of_whole ?_) (.inr (.inl ?_))
          · simp [patchFields, isMapField]
          · simp [last, isMapField]
      | map incoming =>
          have ends : lastMaps values ≠ [] := by
            intro none
            have notMap := (List.rtakeWhile_eq_nil_iff.mp none) carries
            rw [List.getLast?_eq_some_getLast carries] at last
            rw [Option.some.inj last] at notMap
            exact notMap rfl
          have notLast : ¬ (values.getLast?.all fun value => !isMapField value) = true := by
            simp [last, isMapField]
          have lastMerges := (foldl_mergeOnto_lastMaps mixed ends (some (.map entries))).symm.trans
            merges
          by_cases wholly : WrittenWhole entries values
          · refine iff_of_true (reaches_of_whole ?_) (.inr (.inr (.inl wholly)))
            rw [patchFields_whole fieldPaths]
            · exact List.mem_cons_self
            · refine wholly.imp_right fun some => ?_
              obtain ⟨keys, touched, fails⟩ := some
              exact ⟨keys, touched, fails.imp_right fun lost => lost mergedField lastMerges⟩
          · rw [reaches_iff_covered keyed fieldPaths headed ends lastMerges wholly]
            simp [KeepsField, maps, notLast, wholly]

end Reach

/-! ## The written document -/

/-- The patches keep every field that is a map in the base. -/
def WritesBack (base : Fields V) (updates : List (CommittedUpdate V)) : Prop :=
  ∀ top entries, base.lookup top = some (.map entries) → KeepsField entries (carried updates top)

theorem KeepsMaps.writesBack (keeps : KeepsMaps base updates) : WritesBack base updates := by
  intro top entries found
  obtain maps | last := keeps _ (mem_of_lookup_eq_some found) rfl
  · exact .inl maps
  · exact .inr (.inl last)

theorem Patched.fieldPaths {acc : Replay V} (patched : Patched updates base acc) (top : String) :
    FieldPaths top (carried updates top)
      (acc.changed.dedup.filter fun path => path.head? = some top) := by
  intro path
  simp only [List.mem_filter, List.mem_dedup, patched.changed, mem_touchedKeys]
  constructor
  · rintro ⟨⟨⟨other, value, member, keys, inPaths, rfl⟩, headed⟩, deep⟩
    obtain rfl : other = top := by simpa using headed
    exact ⟨keys, ⟨⟨value, member, inPaths⟩, by simpa using deep⟩, rfl⟩
  · rintro ⟨keys, ⟨⟨value, member, inPaths⟩, deep⟩, rfl⟩
    exact ⟨⟨⟨top, value, member, keys, inPaths, rfl⟩, by simp⟩, by simpa using deep⟩

theorem aligned_buildPatchFields_iff {changed : List FieldPath} {base merged : Fields V}
    {top : String} {mergedField : FieldValue V} (touched : ∃ keys, top :: keys ∈ changed)
    (found : merged.lookup top = some mergedField) (keys : List String) :
    (∃ assignment ∈ buildPatchFields changed base merged, Aligned assignment.1 (top :: keys)) ↔
      ∃ assignment ∈ patchFields top (base.lookup top) mergedField
        (changed.filter fun path => path.head? = some top), Aligned assignment.1 (top :: keys) := by
  constructor
  · rintro ⟨assignment, member, aligned⟩
    obtain ⟨other, inTops, inField⟩ := List.mem_flatMap.mp member
    cases present : merged.lookup other with
    | none => simp [present] at inField
    | some otherField =>
        rw [present] at inField
        obtain ⟨below, path, _⟩ := (@assignsField_patchFields V other otherField
          (changed.filter fun path => path.head? = some other) (fun _ => headed_of_mem_filter)
          (base.lookup other)).sound assignment inField
        have same : other = top := by
          rw [path] at aligned
          exact ((aligned_cons_cons _ _ _ _).mp aligned).1
        subst same
        cases present.symm.trans found
        exact ⟨assignment, inField, aligned⟩
  · rintro ⟨assignment, member, aligned⟩
    obtain ⟨keys, inChanged⟩ := touched
    refine ⟨assignment, List.mem_flatMap.mpr ⟨top, ?_, ?_⟩, aligned⟩
    · exact List.mem_dedup.mpr (List.mem_filterMap.mpr ⟨_, inChanged, rfl⟩)
    · simpa only [found] using member

theorem Patched.reaches_iff {acc : Replay V} (patched : Patched updates base acc)
    (keyed : ∀ committed ∈ updates, Keyed committed) :
    (∀ path, (∃ assignment ∈ buildPatchFields acc.changed.dedup base acc.data,
        Aligned assignment.1 path) ∨
      (FieldValue.map base).at path = (FieldValue.map acc.data).at path) ↔
    WritesBack base updates := by
  have field : ∀ top, (∀ keys, (∃ assignment ∈ buildPatchFields acc.changed.dedup base acc.data,
        Aligned assignment.1 (top :: keys)) ∨
      (FieldValue.map base).at (top :: keys) = (FieldValue.map acc.data).at (top :: keys)) ↔
      ∀ entries, base.lookup top = some (.map entries) →
        KeepsField entries (carried updates top) := by
    intro top
    by_cases carries : carried updates top = []
    · refine iff_of_true (fun keys => .inr ?_) fun entries _ => .inl (by simp [carries])
      rw [at_map_cons, at_map_cons, patched.lookup, carries]
      rfl
    · obtain ⟨⟨touchedKeys, touched⟩, mergedField, found⟩ := patched.touched carries
      have aligned := @aligned_buildPatchFields_iff V acc.changed.dedup base acc.data top mergedField
        ⟨touchedKeys, List.mem_dedup.mpr touched⟩ found
      have whole : ∀ keys, patchFields top (base.lookup top) mergedField
          (acc.changed.dedup.filter fun path => path.head? = some top) = [([top], mergedField)] →
          ∃ assignment ∈ buildPatchFields acc.changed.dedup base acc.data,
            Aligned assignment.1 (top :: keys) := by
        intro keys whole
        rw [aligned, whole]
        exact ⟨_, List.mem_cons_self, by simp⟩
      have merges := patched.lookup top
      cases stored : base.lookup top with
      | none =>
          refine iff_of_true (fun keys => .inl (whole keys ?_)) (by rintro _ ⟨⟩)
          rw [stored]
          simp [patchFields]
      | some baseField =>
          cases baseField with
          | leaf leaf =>
              refine iff_of_true (fun keys => .inl (whole keys ?_)) (by rintro _ ⟨⟩)
              rw [stored]
              simp [patchFields]
          | map entries =>
              rw [found, stored] at merges
              have reaches := patchFields_reaches_iff (fun _ => carried_keyed keyed)
                (patched.fieldPaths top) (fun _ => headed_of_mem_filter) carries merges.symm
              simp only [aligned, stored, at_map_cons, found]
              refine reaches.trans ⟨?_, fun keeps => keeps entries rfl⟩
              intro keeps others same
              cases same
              exact keeps
  constructor
  · exact fun reaches top => (field top).mp fun keys => reaches (top :: keys)
  · intro writes path
    cases path with
    | nil => exact .inr rfl
    | cons top keys => exact (field top).mpr (writes top) keys

theorem sameFields_jsonSet_iff (noPut : ∀ committed ∈ updates, committed.update.method ≠ .put)
    (keyed : ∀ committed ∈ updates, Keyed committed) {result : Replay V}
    (replayed : result = updates.foldl applyCommitted (.initial base)) :
    ∃ next, SQLite.jsonSet (encodeData base)
        (((buildPatchFields result.changed.dedup base result.data).map
          SQLite.encodeAssignment).insertionSort SQLite.nameLe) = encodeData next ∧
      (SameFields next result.data ↔ WritesBack base updates) := by
  have patched : Patched updates base result := replayed ▸ patched_foldl noPut keyed base
  obtain ⟨sorted, perm, sortedEq⟩ := SQLite.insertionSort_encodeAssignment
    (buildPatchFields result.changed.dedup base result.data)
  have each : ∀ assignment ∈ sorted, assignment.1 ≠ [] ∧
      (FieldValue.map result.data).HasAt assignment.1 assignment.2 ∧
        (FieldValue.map base).OpenAt assignment.1 := by
    intro assignment member
    obtain ⟨top, mergedField, found, assigns⟩ := assigns_of_mem (perm.mem_iff.mp member)
    exact assigns.parts found
  have parts : PartsOf (.map result.data) sorted (.map base) :=
    ⟨fun assignment member => (each assignment member).2.1,
      fun assignment member => (each assignment member).2.2⟩
  obtain ⟨next, assigned, set⟩ :=
    SQLite.jsonSet_eq_assignAll (fun assignment member => (each assignment member).1) parts
  refine ⟨next, sortedEq ▸ set, ?_⟩
  rw [← patched.reaches_iff keyed]
  constructor
  · intro same path
    by_cases aligned : ∃ assignment ∈ sorted, Aligned assignment.1 path
    · obtain ⟨assignment, member, aligned⟩ := aligned
      exact .inl ⟨assignment, perm.mem_iff.mp member, aligned⟩
    · right
      rw [← same path, ← assigned]
      exact (at_assignAll_of_apart parts fun assignment member touches =>
        aligned ⟨assignment, member, touches⟩).symm
  · intro reaches path
    rw [← assigned]
    apply at_assignAll parts
    exact (reaches path).imp_left fun ⟨assignment, member, aligned⟩ =>
      ⟨assignment, perm.mem_iff.mpr member, aligned⟩

theorem jsonSet_buildPatchFields (noPut : ∀ committed ∈ updates, committed.update.method ≠ .put)
    (keyed : ∀ committed ∈ updates, Keyed committed) (keeps : KeepsMaps base updates)
    {result : Replay V} (replayed : result = updates.foldl applyCommitted (.initial base)) :
    ∃ next, SQLite.jsonSet (encodeData base)
        (((buildPatchFields result.changed.dedup base result.data).map
          SQLite.encodeAssignment).insertionSort SQLite.nameLe) = encodeData next ∧
      SameFields next result.data := by
  obtain ⟨next, written, same⟩ := sameFields_jsonSet_iff noPut keyed replayed
  exact ⟨next, written, same.mpr keeps.writesBack⟩

end Ebb.Server.EntityStore
