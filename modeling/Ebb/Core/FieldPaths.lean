import Ebb.Core.FieldValue

namespace Ebb

/-! Field values read path by path. Two records with the same content at every
path differ at most in the order of their keys, which no reader depends on. -/

/-! ## Reading a path -/

/-- What stands at a path of a field value. -/
inductive FieldNode (V : Type) where
  | leaf (leaf : FieldLeaf V)
  | map
deriving DecidableEq

def FieldValue.at : FieldValue V → List String → Option (FieldNode V)
  | .leaf value, [] => some (.leaf value)
  | .map _, [] => some .map
  | .leaf _, _ :: _ => none
  | .map entries, key :: path =>
      match entries.lookup key with
      | none => none
      | some value => value.at path

def nodeAt (value : Option (FieldValue V)) (path : List String) : Option (FieldNode V) :=
  match value with
  | none => none
  | some value => value.at path

theorem at_map_cons (entries : Fields V) (key : String) (path : List String) :
    (FieldValue.map entries).at (key :: path) = nodeAt (entries.lookup key) path := by
  cases found : entries.lookup key with
  | none => simp [FieldValue.at, nodeAt, found]
  | some value => simp [FieldValue.at, nodeAt, found]

theorem node_of_at_single {name key : String} {content : FieldLeaf V} {path : List String}
    {node : FieldNode V}
    (found : (FieldValue.map [(name, .leaf content)]).at (path ++ [key]) = some node) :
    key = name ∧ node = .leaf content := by
  cases path with
  | nil =>
      rw [List.nil_append, at_map_cons, lookup_cons_eq] at found
      split at found
      · next same =>
          cases found
          exact ⟨same, rfl⟩
      · cases found
  | cons head path =>
      rw [List.cons_append, at_map_cons, lookup_cons_eq] at found
      split at found
      · cases path <;> cases found
      · cases found

theorem isSome_nodeAt_nil (value : Option (FieldValue V)) :
    (nodeAt value []).isSome = value.isSome := by
  rcases value with _ | ⟨_⟩ | ⟨_⟩ <;> rfl

def SameFields (left right : Fields V) : Prop :=
  ∀ path, (FieldValue.map left).at path = (FieldValue.map right).at path

theorem SameFields.refl (fields : Fields V) : SameFields fields fields := fun _ => rfl

variable {left right : Fields V}

theorem SameFields.symm (same : SameFields left right) :
    SameFields right left := fun path => (same path).symm

theorem SameFields.trans {first second third : Fields V} (before : SameFields first second)
    (after : SameFields second third) : SameFields first third :=
  fun path => (before path).trans (after path)

/-! ## Records

A JSON object holds each of its keys once. -/

mutual

def FieldValue.Keyed : FieldValue V → Prop
  | .leaf _ => True
  | .map entries => (entries.map Prod.fst).Nodup ∧ fieldsKeyed entries

def fieldsKeyed : Fields V → Prop
  | [] => True
  | (_, value) :: rest => value.Keyed ∧ fieldsKeyed rest

end

theorem fieldsKeyed_lookup {fields : Fields V} (keyed : fieldsKeyed fields) {key : String}
    {value : FieldValue V} (found : fields.lookup key = some value) : value.Keyed := by
  induction fields with
  | nil => cases found
  | cons entry rest induction =>
      rcases entry with ⟨head, existing⟩
      rw [lookup_cons_eq] at found
      split at found
      · exact Option.some.inj found ▸ keyed.1
      · exact induction keyed.2 found

/-! ## Merges

The client's merge and the server's differ only in how two leaves decide. -/

mutual

def mergeBy (rule : FieldLeaf V → FieldLeaf V → FieldLeaf V) :
    Option (FieldValue V) → FieldValue V → FieldValue V
  | none, incoming => incoming
  | some (.leaf existing), .leaf incoming => .leaf (rule existing incoming)
  | some (.map existing), .map incoming => .map (mergeEntriesBy rule existing incoming)
  | some (.map _), .leaf incoming => .leaf incoming
  | some (.leaf _), .map incoming => .map incoming

def mergeEntriesBy (rule : FieldLeaf V → FieldLeaf V → FieldLeaf V) :
    Fields V → Fields V → Fields V
  | existing, [] => existing
  | existing, (key, value) :: rest =>
      mergeEntriesBy rule (setEntry key (mergeBy rule (existing.lookup key) value) existing) rest

end

/-- A map, or a leaf of a later time than zero. -/
def FieldNode.Stamped : FieldNode V → Prop
  | .leaf content => 0 < content.time
  | .map => True

/-- Under a name that the existing maps inherit and do not hold no leaf of time zero arrives,
and under `__proto__` nothing. -/
def OwnsNames (existing : Option (FieldValue V)) (incoming : FieldValue V) : Prop :=
  ∀ path key node, nodeAt existing path = some .map → nodeAt existing (path ++ [key]) = none →
    incoming.at (path ++ [key]) = some node → key ∈ objectPrototype →
      key ≠ "__proto__" ∧ node.Stamped

/-- No leaf of time zero stands under an inherited name, and nothing under `__proto__`. -/
def NamesStamped (fields : Fields V) : Prop :=
  ∀ path key node, (FieldValue.map fields).at (path ++ [key]) = some node →
    key ∈ objectPrototype → key ≠ "__proto__" ∧ node.Stamped

theorem NamesStamped.ownsNames {fields : Fields V} (stamped : NamesStamped fields)
    (existing : Option (FieldValue V)) : OwnsNames existing (.map fields) :=
  fun path key node _ _ => stamped path key node

theorem namesStamped_single {name : String} (plain : name ≠ "__proto__") {content : FieldLeaf V}
    (stamped : 0 < content.time) : NamesStamped [(name, .leaf content)] := by
  intro path key node found _
  rcases node_of_at_single found with ⟨rfl, rfl⟩
  exact ⟨plain, stamped⟩

section Owned

variable {existing incoming : Fields V} {key : String} {value : FieldValue V}

theorem writesNew_of_stamped {node : FieldNode V} (here : value.at [] = some node)
    (stamped : key ∈ objectPrototype → key ≠ "__proto__" ∧ node.Stamped) :
    value.writesNew key = true := by
  cases value with
  | map entries => rfl
  | leaf leaf =>
      cases here
      by_cases inherited : key ∈ objectPrototype
      · have later : 0 < leaf.time := (stamped inherited).2
        rw [FieldValue.writesNew, decide_eq_true later, Bool.or_true]
      · simp [FieldValue.writesNew, inherited]

theorem OwnsNames.written (owned : OwnsNames (some (.map existing)) (.map incoming))
    (found : incoming.lookup key = some value) :
    ((existing.lookup key).isSome || value.writesNew key) = true := by
  cases held : existing.lookup key with
  | some previous => rfl
  | none =>
      have absent : nodeAt (some (.map existing)) ([] ++ [key]) = none := by
        rw [List.nil_append, nodeAt, at_map_cons, held, nodeAt]
      have here : (FieldValue.map incoming).at ([] ++ [key]) = value.at [] := by
        rw [List.nil_append, at_map_cons, found, nodeAt]
      rcases root : value.at [] with _ | node
      · cases value <;> cases root
      · exact writesNew_of_stamped root (owned [] key node rfl absent (here.trans root))

theorem OwnsNames.below (owned : OwnsNames (some (.map existing)) (.map incoming))
    (found : incoming.lookup key = some value) : OwnsNames (existing.lookup key) value := by
  intro path name node root absent here
  apply owned (key :: path) name node
  · rw [nodeAt, at_map_cons]
    exact root
  · rw [nodeAt, List.cons_append, at_map_cons]
    exact absent
  · rw [List.cons_append, at_map_cons, found]
    exact here

theorem OwnsNames.rest (owned : OwnsNames (some (.map existing)) (.map ((key, value) :: incoming)))
    (fresh : key ∉ incoming.map Prod.fst) (next : FieldValue V) :
    OwnsNames (some (.map (setEntry key next existing))) (.map incoming) := by
  have missing : incoming.lookup key = none := by
    rw [← Option.not_isSome_iff_eq_none, lookup_isSome_iff_mem_keys]
    exact fresh
  have elsewhere : ∀ (head : String) path, head ≠ key →
      nodeAt (some (.map (setEntry key next existing))) (head :: path) =
        nodeAt (some (.map existing)) (head :: path) := by
    intro head path different
    rw [nodeAt, nodeAt, at_map_cons, at_map_cons, lookup_setEntry_of_ne different]
  have same : ∀ (head : String) path, head ≠ key →
      (FieldValue.map incoming).at (head :: path) =
        (FieldValue.map ((key, value) :: incoming)).at (head :: path) := by
    intro head path different
    rw [at_map_cons, at_map_cons, lookup_cons_eq, if_neg different]
  have named : ∀ (head : String) path node,
      (FieldValue.map incoming).at (head :: path) = some node → head ≠ key := by
    rintro head path node here rfl
    rw [at_map_cons, missing] at here
    cases here
  intro path name node root absent here
  cases path with
  | nil =>
      have different := named name [] node here
      rw [List.nil_append] at absent here
      exact owned [] name node rfl ((elsewhere name [] different).symm.trans absent)
        ((same name [] different).symm.trans here)
  | cons head path =>
      have different := named head (path ++ [name]) node here
      rw [List.cons_append] at absent here
      exact owned (head :: path) name node ((elsewhere head path different).symm.trans root)
        ((elsewhere head _ different).symm.trans absent) ((same head _ different).symm.trans here)

end Owned

mutual

theorem mergeFieldValue_eq_mergeBy : ∀ (existing : Option (FieldValue V))
    (incoming : FieldValue V), incoming.Keyed → OwnsNames existing incoming →
      mergeFieldValue existing incoming = mergeBy mergeLeaf existing incoming
  | none, _, _, _ => by rw [mergeFieldValue, mergeBy]
  | some (.leaf _), .leaf _, _, _ => by rw [mergeFieldValue, mergeBy]
  | some (.map _), .leaf _, _, _ => by rw [mergeFieldValue, mergeBy]
  | some (.leaf _), .map _, _, _ => by rw [mergeFieldValue, mergeBy]
  | some (.map existing), .map incoming, keyed, owned => by
      rw [mergeFieldValue, mergeBy, mergeEntries_eq_mergeEntriesBy existing incoming keyed owned]

theorem mergeEntries_eq_mergeEntriesBy : ∀ existing incoming : Fields V,
    (FieldValue.map incoming).Keyed → OwnsNames (some (.map existing)) (.map incoming) →
      mergeEntries existing incoming = mergeEntriesBy mergeLeaf existing incoming
  | _, [], _, _ => by rw [mergeEntries, mergeEntriesBy]
  | existing, (key, value) :: rest, keyed, owned => by
      have parts := List.nodup_cons.mp keyed.1
      have here : ((key, value) :: rest).lookup key = some value := by
        rw [lookup_cons_eq, if_pos rfl]
      rw [mergeEntries, if_pos (owned.written here), mergeEntriesBy,
        mergeFieldValue_eq_mergeBy _ value keyed.2.1 (owned.below here),
        mergeEntries_eq_mergeEntriesBy _ rest ⟨parts.2, keyed.2.2⟩ (owned.rest parts.1 _)]

end

theorem lookup_mergeEntries {incoming : Fields V} (nodup : (incoming.map Prod.fst).Nodup)
    (existing : Fields V) (key : String) :
    (mergeEntries existing incoming).lookup key =
      match incoming.lookup key with
      | none => existing.lookup key
      | some value =>
          if (existing.lookup key).isSome || value.writesNew key then
            some (mergeFieldValue (existing.lookup key) value)
          else none := by
  induction incoming generalizing existing with
  | nil => simp [mergeEntries]
  | cons entry rest induction =>
      rcases entry with ⟨head, value⟩
      have parts := List.nodup_cons.mp nodup
      have missing : rest.lookup head = none := by
        rw [← Option.not_isSome_iff_eq_none, lookup_isSome_iff_mem_keys]
        exact parts.1
      rw [mergeEntries, lookup_cons_eq]
      by_cases equal : key = head
      · subst equal
        rw [if_pos rfl]
        dsimp only
        split
        · rw [induction parts.2, missing]
          exact lookup_setEntry_self _ _ _
        · next unwritten =>
          rw [induction parts.2, missing]
          have absent := (Bool.or_eq_false_iff.mp (Bool.not_eq_true _ ▸ unwritten)).1
          exact Option.isNone_iff_eq_none.mp (by simpa using absent)
      · rw [if_neg equal]
        split
        · rw [induction parts.2, lookup_setEntry_of_ne equal]
        · exact induction parts.2 existing

theorem mergeFieldValue_leaf (existing : Option (FieldValue V)) (incoming : FieldLeaf V) :
    ∃ merged, mergeFieldValue existing (.leaf incoming) = .leaf merged := by
  rcases existing with _ | ⟨_⟩ | ⟨_⟩
  all_goals exact ⟨_, by rw [mergeFieldValue]⟩

theorem at_mergeFieldValue_congr (path : List String) {left right : Option (FieldValue V)}
    {incoming : FieldValue V} (keyed : incoming.Keyed)
    (same : ∀ path, nodeAt left path = nodeAt right path) :
    (mergeFieldValue left incoming).at path = (mergeFieldValue right incoming).at path := by
  induction path generalizing left right incoming with
  | nil =>
      have root := same []
      rcases left with _ | ⟨_⟩ | ⟨_⟩ <;> rcases right with _ | ⟨_⟩ | ⟨_⟩ <;>
        rcases incoming with ⟨_⟩ | ⟨_⟩ <;>
        simp_all [nodeAt, FieldValue.at, mergeFieldValue]
  | cons key path induction =>
      cases incoming with
      | leaf incoming =>
          rcases mergeFieldValue_leaf left incoming with ⟨leftLeaf, leftMerged⟩
          rcases mergeFieldValue_leaf right incoming with ⟨rightLeaf, rightMerged⟩
          rw [leftMerged, rightMerged]
          rfl
      | map incoming =>
          have root := same []
          rcases left with _ | ⟨_⟩ | ⟨first⟩ <;> rcases right with _ | ⟨_⟩ | ⟨second⟩
          case none.none => rfl
          case some.leaf.some.leaf => rw [mergeFieldValue, mergeFieldValue]
          case some.map.some.map =>
            have below : ∀ path,
                nodeAt (first.lookup key) path = nodeAt (second.lookup key) path := by
              intro path
              have here := same (key :: path)
              rwa [nodeAt, nodeAt, at_map_cons, at_map_cons] at here
            have present : (first.lookup key).isSome = (second.lookup key).isSome := by
              rw [← isSome_nodeAt_nil, below [], isSome_nodeAt_nil]
            rw [mergeFieldValue, mergeFieldValue, at_map_cons, at_map_cons,
              lookup_mergeEntries keyed.1, lookup_mergeEntries keyed.1, present]
            cases found : incoming.lookup key with
            | none => exact below path
            | some value =>
                dsimp only
                split
                · exact induction (fieldsKeyed_lookup keyed.2 found) below
                · rfl
          all_goals simp [nodeAt, FieldValue.at] at root

section

variable (rule : FieldLeaf V → FieldLeaf V → FieldLeaf V)

def mergeEntry (existing incoming : Option (FieldValue V)) : Option (FieldValue V) :=
  match incoming with
  | none => existing
  | some value => some (mergeBy rule existing value)

variable {incoming : Fields V}

theorem lookup_mergeEntriesBy (nodup : (incoming.map Prod.fst).Nodup) (existing : Fields V)
    (key : String) :
    (mergeEntriesBy rule existing incoming).lookup key =
      mergeEntry rule (existing.lookup key) (incoming.lookup key) := by
  induction incoming generalizing existing with
  | nil => simp [mergeEntriesBy, mergeEntry]
  | cons entry rest induction =>
      rcases entry with ⟨head, value⟩
      have parts := List.nodup_cons.mp nodup
      rw [mergeEntriesBy, induction parts.2, lookup_setEntry, lookup_cons_eq]
      by_cases equal : key = head
      · subst equal
        have absent : rest.lookup key = none := by
          rw [← Option.not_isSome_iff_eq_none, lookup_isSome_iff_mem_keys]
          exact parts.1
        simp [absent, mergeEntry]
      · simp [equal]

/-- The entries a map merges into; a leaf and an absent value have none. -/
def existingEntries : Option (FieldValue V) → Fields V
  | some (.map entries) => entries
  | _ => []

theorem mergeBy_map (nodup : (incoming.map Prod.fst).Nodup) (existing : Option (FieldValue V)) :
    ∃ merged, mergeBy rule existing (.map incoming) = .map merged ∧
      ∀ key, merged.lookup key =
        mergeEntry rule ((existingEntries existing).lookup key) (incoming.lookup key) := by
  have fresh : ∀ key, incoming.lookup key =
      mergeEntry rule (([] : Fields V).lookup key) (incoming.lookup key) := by
    intro key
    cases incoming.lookup key with
    | none => rfl
    | some value => simp [mergeEntry, mergeBy]
  cases existing with
  | none => exact ⟨incoming, by rw [mergeBy], fresh⟩
  | some value =>
      cases value with
      | leaf leaf => exact ⟨incoming, by rw [mergeBy], fresh⟩
      | map entries =>
          exact ⟨mergeEntriesBy rule entries incoming, by rw [mergeBy],
            lookup_mergeEntriesBy rule nodup entries⟩

theorem mergeBy_leaf (existing : Option (FieldValue V)) (incoming : FieldLeaf V) :
    ∃ merged, mergeBy rule existing (.leaf incoming) = .leaf merged := by
  rcases existing with _ | ⟨_⟩ | ⟨_⟩
  all_goals exact ⟨_, by rw [mergeBy]⟩

theorem at_mergeBy_congr (path : List String) {left right : Option (FieldValue V)}
    {incoming : FieldValue V} (keyed : incoming.Keyed)
    (same : ∀ path, nodeAt left path = nodeAt right path) :
    (mergeBy rule left incoming).at path = (mergeBy rule right incoming).at path := by
  induction path generalizing left right incoming with
  | nil =>
      have root := same []
      rcases left with _ | ⟨_⟩ | ⟨_⟩ <;> rcases right with _ | ⟨_⟩ | ⟨_⟩ <;>
        rcases incoming with ⟨_⟩ | ⟨_⟩ <;>
        simp_all [nodeAt, FieldValue.at, mergeBy]
  | cons key path induction =>
      cases incoming with
      | leaf incoming =>
          rcases mergeBy_leaf rule left incoming with ⟨leftLeaf, leftMerged⟩
          rcases mergeBy_leaf rule right incoming with ⟨rightLeaf, rightMerged⟩
          rw [leftMerged, rightMerged]
          rfl
      | map incoming =>
          rcases mergeBy_map rule keyed.1 left with ⟨leftMerged, leftEq, leftLookup⟩
          rcases mergeBy_map rule keyed.1 right with ⟨rightMerged, rightEq, rightLookup⟩
          rw [leftEq, rightEq, at_map_cons, at_map_cons, leftLookup, rightLookup]
          have sameBelow : ∀ path,
              nodeAt ((existingEntries left).lookup key) path =
                nodeAt ((existingEntries right).lookup key) path := by
            intro path
            have root := same []
            have below := same (key :: path)
            rcases left with _ | ⟨_⟩ | ⟨_⟩ <;> rcases right with _ | ⟨_⟩ | ⟨_⟩ <;>
              simp_all [nodeAt, FieldValue.at, existingEntries]
          cases found : incoming.lookup key with
          | none => exact sameBelow path
          | some value => exact induction (fieldsKeyed_lookup keyed.2 found) sameBelow

theorem SameFields.mergeEntriesBy {left right : Fields V} (keyed : (FieldValue.map incoming).Keyed)
    (same : SameFields left right) :
    SameFields (mergeEntriesBy rule left incoming) (mergeEntriesBy rule right incoming) := by
  intro path
  have merged := @at_mergeBy_congr V rule path (some (.map left)) (some (.map right))
    (.map incoming) keyed same
  simpa only [mergeBy] using merged

end

/-! ## Merging in either order -/

mutual

/-- Two values whose merge does not depend on which comes first: they have one
kind at every shared path, and equal stamps mark equal leaves. -/
def FieldValue.Compatible : FieldValue V → FieldValue V → Prop
  | .leaf left, .leaf right =>
      left.time = right.time → codeUnits left.updateId = codeUnits right.updateId →
        left = right
  | .map left, .map right => fieldsCompatible left right
  | _, _ => False

def fieldsCompatible : Fields V → Fields V → Prop
  | [], _ => True
  | (key, value) :: rest, right =>
      (∀ other, right.lookup key = some other → value.Compatible other) ∧
        fieldsCompatible rest right

end

theorem fieldsCompatible_lookup (compatible : fieldsCompatible left right) {key : String}
    {value other : FieldValue V} (found : left.lookup key = some value)
    (otherFound : right.lookup key = some other) :
    value.Compatible other := by
  induction left with
  | nil => cases found
  | cons entry rest induction =>
      rcases entry with ⟨head, existing⟩
      rw [lookup_cons_eq] at found
      split at found
      · next equal =>
          cases found
          exact compatible.1 other (equal ▸ otherFound)
      · exact induction compatible.2 found

/-- The stamps of leaves in the order the merge compares them. -/
def FieldLeaf.NotAfter (left right : FieldLeaf V) : Prop :=
  left.time < right.time ∨
    left.time = right.time ∧ codeUnitsGe right.updateId left.updateId = true

theorem FieldLeaf.notAfter_total (left right : FieldLeaf V) :
    left.NotAfter right ∨ right.NotAfter left := by
  unfold NotAfter
  rcases Nat.lt_trichotomy left.time right.time with below | level | above
  · exact .inl (.inl below)
  · rcases List.le_total (codeUnits left.updateId) (codeUnits right.updateId) with
      before | after
    · exact .inl (.inr ⟨level, codeUnitsGe_iff.mpr before⟩)
    · exact .inr (.inr ⟨level.symm, codeUnitsGe_iff.mpr after⟩)
  · exact .inr (.inl above)

theorem FieldLeaf.NotAfter.trans {first second third : FieldLeaf V}
    (before : first.NotAfter second) (after : second.NotAfter third) :
    first.NotAfter third := by
  rcases before with below | ⟨level, before⟩
  · rcases after with above | ⟨sameTime, _⟩
    · exact .inl (Nat.lt_trans below above)
    · exact .inl (sameTime ▸ below)
  · rcases after with above | ⟨sameTime, after⟩
    · exact .inl (level ▸ above)
    · exact .inr ⟨level.trans sameTime, codeUnitsGe_iff.mpr
        (List.le_trans (codeUnitsGe_iff.mp before) (codeUnitsGe_iff.mp after))⟩

theorem FieldLeaf.NotAfter.eq_stamps {left right : FieldLeaf V}
    (forward : left.NotAfter right) (backward : right.NotAfter left) :
    left.time = right.time ∧ codeUnits left.updateId = codeUnits right.updateId := by
  rcases forward with below | ⟨level, before⟩
  · rcases backward with above | ⟨level, _⟩
    · exact absurd above (Nat.lt_asymm below)
    · exact absurd level (Nat.ne_of_gt below)
  · rcases backward with above | ⟨_, after⟩
    · exact absurd level (Nat.ne_of_gt above)
    · exact ⟨level, List.le_antisymm (codeUnitsGe_iff.mp before) (codeUnitsGe_iff.mp after)⟩

instance (left right : FieldLeaf V) : Decidable (left.NotAfter right) :=
  inferInstanceAs (Decidable (_ ∨ _))

theorem mergeLeaf_eq (existing incoming : FieldLeaf V) :
    mergeLeaf existing incoming =
      if existing.NotAfter incoming then incoming else existing := by
  simp only [mergeLeaf, FieldLeaf.NotAfter]
  rcases Nat.lt_trichotomy existing.time incoming.time with below | level | above
  · simp [below]
  · simp [level]
  · have notBelow : ¬ existing.time < incoming.time := Nat.lt_asymm above
    have notLevel : ¬ existing.time = incoming.time := Nat.ne_of_gt above
    simp [above, notBelow, notLevel]

theorem mergeLeaf_comm {left right : FieldLeaf V}
    (compatible : (FieldValue.leaf left).Compatible (.leaf right)) :
    mergeLeaf left right = mergeLeaf right left := by
  rw [mergeLeaf_eq, mergeLeaf_eq]
  by_cases forward : left.NotAfter right
  · by_cases backward : right.NotAfter left
    · have stamps := forward.eq_stamps backward
      rw [if_pos forward, if_pos backward, compatible stamps.1 stamps.2]
    · rw [if_pos forward, if_neg backward]
  · have backward := (left.notAfter_total right).resolve_left forward
    rw [if_neg forward, if_pos backward]

theorem mergeLeaf_swap (existing : FieldLeaf V) {left right : FieldLeaf V}
    (compatible : (FieldValue.leaf left).Compatible (.leaf right)) :
    mergeLeaf (mergeLeaf existing left) right = mergeLeaf (mergeLeaf existing right) left := by
  rw [mergeLeaf_eq existing left, mergeLeaf_eq existing right]
  by_cases leftWins : existing.NotAfter left <;> by_cases rightWins : existing.NotAfter right
  · rw [if_pos leftWins, if_pos rightWins, mergeLeaf_comm compatible]
  · have behind : ¬ left.NotAfter right := fun ordered => rightWins (leftWins.trans ordered)
    rw [if_pos leftWins, if_neg rightWins, mergeLeaf_eq, mergeLeaf_eq, if_neg behind,
      if_pos leftWins]
  · have behind : ¬ right.NotAfter left := fun ordered => leftWins (rightWins.trans ordered)
    rw [if_neg leftWins, if_pos rightWins, mergeLeaf_eq, mergeLeaf_eq, if_neg behind,
      if_pos rightWins]
  · rw [if_neg leftWins, if_neg rightWins, mergeLeaf_eq, mergeLeaf_eq, if_neg leftWins,
      if_neg rightWins]

theorem at_mergeBy_swap (path : List String) (existing : Option (FieldValue V))
    {left right : FieldValue V} (leftKeyed : left.Keyed) (rightKeyed : right.Keyed)
    (compatible : left.Compatible right) :
    (mergeBy mergeLeaf (some (mergeBy mergeLeaf existing left)) right).at path =
      (mergeBy mergeLeaf (some (mergeBy mergeLeaf existing right)) left).at path := by
  induction path generalizing existing left right with
  | nil =>
      rcases left with ⟨left⟩ | ⟨left⟩ <;> rcases right with ⟨right⟩ | ⟨right⟩
      · have swapped := fun leaf => mergeLeaf_swap leaf compatible
        have comm := mergeLeaf_comm compatible
        rcases existing with _ | ⟨_⟩ | ⟨_⟩ <;>
          simp [mergeBy, FieldValue.at, swapped, comm]
      · exact compatible.elim
      · exact compatible.elim
      · rcases existing with _ | ⟨_⟩ | ⟨_⟩ <;> simp [mergeBy, FieldValue.at]
  | cons key path induction =>
      rcases left with ⟨left⟩ | ⟨left⟩ <;> rcases right with ⟨right⟩ | ⟨right⟩
      · rcases existing with _ | ⟨_⟩ | ⟨_⟩ <;> simp [mergeBy, FieldValue.at]
      · exact compatible.elim
      · exact compatible.elim
      · rcases mergeBy_map mergeLeaf leftKeyed.1 existing with ⟨first, firstEq, firstLookup⟩
        rcases mergeBy_map mergeLeaf rightKeyed.1 existing with ⟨second, secondEq, secondLookup⟩
        rw [firstEq, secondEq, mergeBy, mergeBy, at_map_cons, at_map_cons,
          lookup_mergeEntriesBy mergeLeaf rightKeyed.1, lookup_mergeEntriesBy mergeLeaf leftKeyed.1,
          firstLookup, secondLookup]
        cases leftFound : left.lookup key with
        | none => rfl
        | some leftValue =>
            cases rightFound : right.lookup key with
            | none => rfl
            | some rightValue =>
                exact induction _ (fieldsKeyed_lookup leftKeyed.2 leftFound)
                  (fieldsKeyed_lookup rightKeyed.2 rightFound)
                  (fieldsCompatible_lookup compatible leftFound rightFound)

theorem SameFields.mergeEntries {incoming : Fields V} (nodup : (incoming.map Prod.fst).Nodup)
    (keyed : fieldsKeyed incoming) (same : SameFields left right) :
    SameFields (mergeEntries left incoming) (mergeEntries right incoming) := by
  intro path
  have merged := @at_mergeFieldValue_congr V path (some (.map left)) (some (.map right))
    (.map incoming) ⟨nodup, keyed⟩ same
  simpa only [mergeFieldValue] using merged

theorem mergeEntries_swap (existing : Fields V) (leftKeyed : (FieldValue.map left).Keyed)
    (rightKeyed : (FieldValue.map right).Keyed) (leftStamped : NamesStamped left)
    (rightStamped : NamesStamped right) (compatible : fieldsCompatible left right) :
    SameFields (mergeEntries (mergeEntries existing left) right)
      (mergeEntries (mergeEntries existing right) left) := by
  intro path
  have swapped := at_mergeBy_swap path (some (.map existing)) leftKeyed rightKeyed compatible
  rw [mergeEntries_eq_mergeEntriesBy _ right rightKeyed (rightStamped.ownsNames _),
    mergeEntries_eq_mergeEntriesBy _ left leftKeyed (leftStamped.ownsNames _),
    mergeEntries_eq_mergeEntriesBy _ left leftKeyed (leftStamped.ownsNames _),
    mergeEntries_eq_mergeEntriesBy _ right rightKeyed (rightStamped.ownsNames _)]
  simpa only [mergeBy] using swapped

end Ebb
