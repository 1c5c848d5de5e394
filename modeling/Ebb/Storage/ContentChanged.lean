import Ebb.Core.FieldPaths
import Ebb.Storage.Materialize

namespace Ebb.Storage

/-! When a reader can tell two versions of a row apart. `V` is a leaf object, which the
comparison tells from every other one; what it holds is its value. -/

section Comparison

variable [DecidableEq V]

mutual

def fieldValueEqual : FieldValue V → FieldValue V → Bool
  | .leaf left, .leaf right => left == right
  | .map left, .map right => left.length == right.length && entriesEqual left right
  | .leaf _, .map _ => false
  | .map _, .leaf _ => false

def entriesEqual : Fields V → Fields V → Bool
  | [], _ => true
  | (key, left) :: rest, others =>
      (match others.lookup key with
        | some right => fieldValueEqual left right
        | none => false) && entriesEqual rest others

end

def fieldsEqual (left right : Fields V) : Bool :=
  left.length == right.length && entriesEqual left right

/-- The GSN of the last delivery is bookkeeping and not compared. -/
def contentChanged : Option (Entity V) → Option (Entity V) → Bool
  | none, none => false
  | none, some _ => true
  | some _, none => true
  | some previous, some next =>
      previous.type != next.type || previous.updatedHlc != next.updatedHlc ||
        previous.deletedHlc != next.deletedHlc || !fieldsEqual previous.fields next.fields

variable {left right : Fields V}

/-! ## Equal records -/

theorem lookup_of_entriesEqual (equal : entriesEqual left right = true) {key : String}
    {value : FieldValue V} (member : (key, value) ∈ left) :
    ∃ other, right.lookup key = some other ∧ fieldValueEqual value other = true := by
  induction left with
  | nil => cases member
  | cons entry rest induction =>
      rcases entry with ⟨head, first⟩
      rw [entriesEqual, Bool.and_eq_true] at equal
      rcases List.mem_cons.mp member with here | later
      · cases here
        cases found : right.lookup key with
        | none =>
            rw [found] at equal
            cases equal.1
        | some other =>
            rw [found] at equal
            exact ⟨other, rfl, equal.1⟩
      · exact induction equal.2 later

theorem lookup_eq_none_of_fieldsEqual (nodup : (left.map Prod.fst).Nodup)
    (equal : fieldsEqual left right = true) {key : String} (absent : left.lookup key = none)
    : right.lookup key = none := by
  rw [fieldsEqual, Bool.and_eq_true, beq_iff_eq] at equal
  have among : left.map Prod.fst ⊆ right.map Prod.fst := by
    intro other member
    rcases List.mem_map.mp member with ⟨⟨name, value⟩, listed, rfl⟩
    rcases lookup_of_entriesEqual equal.2 listed with ⟨found, held, _⟩
    exact (lookup_isSome_iff_mem_keys _ _).mp (Option.isSome_iff_exists.mpr ⟨found, held⟩)
  have perm : (left.map Prod.fst).Perm (right.map Prod.fst) := by
    apply (List.subperm_of_subset nodup among).perm_of_length_le
    rw [List.length_map, List.length_map]
    exact Nat.le_of_eq equal.1.symm
  rw [← Option.not_isSome_iff_eq_none, lookup_isSome_iff_mem_keys, ← perm.mem_iff,
    ← lookup_isSome_iff_mem_keys, absent]
  exact Bool.false_ne_true

theorem at_eq_of_fieldValueEqual (path : List String) {left right : FieldValue V}
    (keyed : left.Keyed) (equal : fieldValueEqual left right = true) :
    left.at path = right.at path := by
  induction path generalizing left right with
  | nil =>
      cases left with
      | leaf first =>
          cases right with
          | leaf second =>
              rw [fieldValueEqual, beq_iff_eq] at equal
              rw [equal]
          | map _ => cases equal
      | map _ =>
          cases right with
          | leaf _ => cases equal
          | map _ => rfl
  | cons key path induction =>
      cases left with
      | leaf _ =>
          cases right with
          | leaf _ => rfl
          | map _ => cases equal
      | map first =>
          cases right with
          | leaf _ => cases equal
          | map second =>
              rw [at_map_cons, at_map_cons]
              have parts : fieldsEqual first second = true := by
                rw [fieldValueEqual] at equal
                exact equal
              cases found : first.lookup key with
              | none => rw [lookup_eq_none_of_fieldsEqual keyed.1 parts found]
              | some value =>
                  rw [fieldsEqual, Bool.and_eq_true] at parts
                  rcases lookup_of_entriesEqual parts.2 (mem_of_lookup_eq_some found) with
                    ⟨other, held, same⟩
                  rw [held]
                  exact induction (fieldsKeyed_lookup keyed.2 found) same

omit [DecidableEq V] in
theorem lookup_of_same (same : SameFields left right) {key : String} {value : FieldValue V}
    (found : left.lookup key = some value) :
    ∃ other, right.lookup key = some other ∧ ∀ path, value.at path = other.at path := by
  have below : ∀ path, nodeAt (left.lookup key) path = nodeAt (right.lookup key) path := by
    intro path
    rw [← at_map_cons, ← at_map_cons]
    exact same (key :: path)
  cases held : right.lookup key with
  | none =>
      have root := below []
      rw [found, held] at root
      cases value <;> cases root
  | some other =>
      refine ⟨other, rfl, fun path => ?_⟩
      have here := below path
      rw [found, held] at here
      exact here

omit [DecidableEq V] in
theorem length_eq_of_same (leftNodup : (left.map Prod.fst).Nodup)
    (rightNodup : (right.map Prod.fst).Nodup) (same : SameFields left right) :
    left.length = right.length := by
  have perm : (left.map Prod.fst).Perm (right.map Prod.fst) := by
    apply (List.perm_ext_iff_of_nodup leftNodup rightNodup).mpr
    intro key
    rw [← lookup_isSome_iff_mem_keys, ← lookup_isSome_iff_mem_keys, Option.isSome_iff_exists,
      Option.isSome_iff_exists]
    constructor
    · rintro ⟨value, found⟩
      rcases lookup_of_same same found with ⟨other, held, _⟩
      exact ⟨other, held⟩
    · rintro ⟨value, found⟩
      rcases lookup_of_same same.symm found with ⟨other, held, _⟩
      exact ⟨other, held⟩
  rw [← List.length_map Prod.fst, perm.length_eq, List.length_map]

mutual

theorem fieldValueEqual_of_at_eq : ∀ {left right : FieldValue V}, left.Keyed → right.Keyed →
    (∀ path, left.at path = right.at path) → fieldValueEqual left right = true
  | .leaf first, .leaf second, _, _, same => by
      have root := same []
      rw [FieldValue.at, FieldValue.at] at root
      cases root
      rw [fieldValueEqual, beq_self_eq_true]
  | .leaf _, .map _, _, _, same => nomatch same []
  | .map _, .leaf _, _, _, same => nomatch same []
  | .map first, .map second, leftKeyed, rightKeyed, same => by
      rw [fieldValueEqual, Bool.and_eq_true, beq_iff_eq]
      refine ⟨length_eq_of_same leftKeyed.1 rightKeyed.1 same, ?_⟩
      apply entriesEqual_of_lookup leftKeyed.2 rightKeyed.2
      intro key value member
      exact lookup_of_same same ((lookup_eq_some_iff_mem leftKeyed.1 key value).mpr member)

theorem entriesEqual_of_lookup : ∀ {left right : Fields V}, fieldsKeyed left →
    fieldsKeyed right →
    (∀ key value, (key, value) ∈ left →
      ∃ other, right.lookup key = some other ∧ ∀ path, value.at path = other.at path) →
    entriesEqual left right = true
  | [], _, _, _, _ => by rw [entriesEqual]
  | (key, value) :: rest, right, leftKeyed, rightKeyed, matched => by
      rcases matched key value List.mem_cons_self with ⟨other, held, same⟩
      rw [entriesEqual, held, Bool.and_eq_true]
      exact ⟨fieldValueEqual_of_at_eq leftKeyed.1 (fieldsKeyed_lookup rightKeyed held) same,
        entriesEqual_of_lookup leftKeyed.2 rightKeyed fun key value member =>
          matched key value (List.mem_cons_of_mem _ member)⟩

end

theorem fieldsEqual_iff (leftKeyed : (FieldValue.map left).Keyed)
    (rightKeyed : (FieldValue.map right).Keyed) :
    fieldsEqual left right = true ↔ SameFields left right := by
  have asMaps : fieldsEqual left right = fieldValueEqual (.map left) (.map right) := by
    rw [fieldValueEqual, fieldsEqual]
  rw [asMaps]
  constructor
  · exact fun equal path => at_eq_of_fieldValueEqual path leftKeyed equal
  · exact fieldValueEqual_of_at_eq leftKeyed rightKeyed

end Comparison

/-! ## Content -/

section Content

variable {W : Type} (valueOf : V → W)

def FieldNode.held : FieldNode V → FieldNode W
  | .leaf leaf => .leaf { value := valueOf leaf.value, updateId := leaf.updateId, hlc := leaf.hlc }
  | .map => .map

/-- Records that hold the same values path by path. -/
def SameValues (left right : Fields V) : Prop :=
  ∀ path, ((FieldValue.map left).at path).map (FieldNode.held valueOf) =
    ((FieldValue.map right).at path).map (FieldNode.held valueOf)

/-- Two views of a row with the same content. -/
def SameContent : Option (Entity V) → Option (Entity V) → Prop
  | none, none => True
  | some left, some right => left.type = right.type ∧ left.updatedHlc = right.updatedHlc ∧
      left.deletedHlc = right.deletedHlc ∧ SameValues valueOf left.fields right.fields
  | _, _ => False

variable {valueOf}

theorem SameContent.refl (row : Option (Entity V)) : SameContent valueOf row row := by
  cases row with
  | none => trivial
  | some row => exact ⟨rfl, rfl, rfl, fun _ => rfl⟩

theorem SameContent.trans {first second third : Option (Entity V)}
    (before : SameContent valueOf first second) (after : SameContent valueOf second third) :
    SameContent valueOf first third := by
  cases first with
  | none =>
      cases second with
      | none => exact after
      | some _ => cases before
  | some first =>
      cases second with
      | none => cases before
      | some second =>
          cases third with
          | none => cases after
          | some third =>
              exact ⟨before.1.trans after.1, before.2.1.trans after.2.1,
                before.2.2.1.trans after.2.2.1,
                fun path => (before.2.2.2 path).trans (after.2.2.2 path)⟩

theorem SameFields.sameValues {left right : Fields V} (same : SameFields left right) :
    SameValues valueOf left right := by
  intro path
  rw [same path]

theorem SameValues.sameFields {left right : Fields V} (same : SameValues valueOf left right)
    (known : ∀ path first second, (FieldValue.map left).at path = some (.leaf first) →
      (FieldValue.map right).at path = some (.leaf second) →
        FieldNode.held valueOf (.leaf first) = FieldNode.held valueOf (.leaf second) →
          first = second) : SameFields left right := by
  intro path
  have here := same path
  cases first : (FieldValue.map left).at path with
  | none =>
      rw [first] at here
      exact (Option.map_eq_none_iff.mp here.symm).symm
  | some node =>
      rw [first, Option.map_some] at here
      rcases Option.map_eq_some_iff.mp here.symm with ⟨other, second, equal⟩
      rw [second]
      cases node with
      | leaf leaf =>
          cases other with
          | leaf otherLeaf => rw [known path leaf otherLeaf first second equal.symm]
          | map => cases equal
      | map =>
          cases other with
          | leaf _ => cases equal
          | map => rfl

variable [DecidableEq V]

/-- A row whose fields are an object: it has each key once. -/
def KeyedRow (row : Option (Entity V)) : Prop :=
  ∀ entity ∈ row, (FieldValue.map entity.fields).Keyed

theorem sameContent_of_unchanged {previous next : Option (Entity V)}
    (previousKeyed : KeyedRow previous) (nextKeyed : KeyedRow next)
    (unchanged : contentChanged previous next = false) : SameContent valueOf previous next := by
  cases previous with
  | none =>
      cases next with
      | none => trivial
      | some _ => cases unchanged
  | some previous =>
      cases next with
      | none => cases unchanged
      | some next =>
          simp only [contentChanged, Bool.or_eq_false_iff, bne_eq_false_iff_eq,
            Bool.not_eq_false'] at unchanged
          rcases unchanged with ⟨⟨⟨type, updated⟩, deleted⟩, fields⟩
          have same := (fieldsEqual_iff (previousKeyed previous rfl) (nextKeyed next rfl)).mp fields
          exact ⟨type, updated, deleted, SameFields.sameValues same⟩

theorem unchanged_of_sameContent {previous next : Option (Entity V)}
    (previousKeyed : KeyedRow previous) (nextKeyed : KeyedRow next)
    (known : ∀ row ∈ previous, ∀ other ∈ next, ∀ path first second,
      (FieldValue.map row.fields).at path = some (.leaf first) →
        (FieldValue.map other.fields).at path = some (.leaf second) →
          FieldNode.held valueOf (.leaf first) = FieldNode.held valueOf (.leaf second) →
            first = second)
    (same : SameContent valueOf previous next) : contentChanged previous next = false := by
  cases previous with
  | none =>
      cases next with
      | none => rfl
      | some _ => cases same
  | some previous =>
      cases next with
      | none => cases same
      | some next =>
          rcases same with ⟨type, updated, deleted, values⟩
          have fields := SameValues.sameFields values (known previous rfl next rfl)
          simp only [contentChanged, Bool.or_eq_false_iff, bne_eq_false_iff_eq, Bool.not_eq_false']
          exact ⟨⟨⟨type, updated⟩, deleted⟩,
            (fieldsEqual_iff (previousKeyed previous rfl) (nextKeyed next rfl)).mpr fields⟩

end Content

/-! ## Records under merges -/

theorem fieldsKeyed_setEntry {fields : Fields V} (keyed : fieldsKeyed fields) (key : String)
    {value : FieldValue V} (valueKeyed : value.Keyed) : fieldsKeyed
      (setEntry key value fields) := by
  induction fields with
  | nil => exact ⟨valueKeyed, trivial⟩
  | cons entry rest induction =>
      rcases entry with ⟨head, existing⟩
      rw [setEntry]
      split
      · exact ⟨valueKeyed, keyed.2⟩
      · exact ⟨keyed.1, induction keyed.2⟩

mutual

theorem keyed_mergeFieldValue : ∀ {existing : Option (FieldValue V)} {incoming : FieldValue V},
    (∀ value ∈ existing, value.Keyed) → incoming.Keyed → (mergeFieldValue existing incoming).Keyed
  | none, _, _, keyed => by
      rw [mergeFieldValue]
      exact keyed
  | some (.leaf _), .leaf _, _, _ => by
      rw [mergeFieldValue]
      trivial
  | some (.map _), .leaf _, _, keyed => by
      rw [mergeFieldValue]
      exact keyed
  | some (.leaf _), .map _, _, keyed => by
      rw [mergeFieldValue]
      exact keyed
  | some (.map entries), .map incoming, existing, keyed => by
      rw [mergeFieldValue]
      exact keyed_mergeEntries (existing (.map entries) rfl) keyed.2

theorem keyed_mergeEntries : ∀ {existing incoming : Fields V},
    (FieldValue.map existing).Keyed → fieldsKeyed incoming →
      (FieldValue.map (mergeEntries existing incoming)).Keyed
  | _, [], keyed, _ => by
      rw [mergeEntries]
      exact keyed
  | existing, (key, value) :: rest, keyed, incoming => by
      rw [mergeEntries]
      split
      · apply keyed_mergeEntries ?_ incoming.2
        refine ⟨nodup_keys_setEntry keyed.1 _ _, fieldsKeyed_setEntry keyed.2 _ ?_⟩
        exact keyed_mergeFieldValue (fun found held => fieldsKeyed_lookup keyed.2 held) incoming.1
      · exact keyed_mergeEntries keyed incoming.2

end

theorem mergeLeaf_eq_or (existing incoming : FieldLeaf V) :
    mergeLeaf existing incoming = existing ∨ mergeLeaf existing incoming = incoming := by
  rw [mergeLeaf]
  split
  · exact .inr rfl
  · split
    · exact .inl rfl
    · split
      · exact .inr rfl
      · exact .inl rfl

theorem leaf_of_mergeFieldValue (path : List String) {existing : Option (FieldValue V)}
    {incoming : FieldValue V} (keyed : incoming.Keyed) {leaf : FieldLeaf V}
    (found : (mergeFieldValue existing incoming).at path = some (.leaf leaf)) :
    nodeAt existing path = some (.leaf leaf) ∨ incoming.at path = some (.leaf leaf) := by
  induction path generalizing existing incoming with
  | nil =>
      rcases existing with _ | ⟨first⟩ | ⟨first⟩ <;> rcases incoming with ⟨second⟩ | ⟨second⟩
      case some.leaf.leaf =>
        rw [mergeFieldValue] at found
        rcases mergeLeaf_eq_or first second with kept | written
        · rw [kept] at found
          exact .inl found
        · rw [written] at found
          exact .inr found
      all_goals
        rw [mergeFieldValue] at found
        exact .inr found
  | cons key path induction =>
      cases incoming with
      | leaf second =>
          rcases mergeFieldValue_leaf existing second with ⟨merged, merged_eq⟩
          rw [merged_eq] at found
          cases found
      | map second =>
          rcases existing with _ | ⟨_⟩ | ⟨entries⟩
          case none =>
            rw [mergeFieldValue] at found
            exact .inr found
          case some.leaf =>
            rw [mergeFieldValue] at found
            exact .inr found
          case some.map =>
            rw [mergeFieldValue, at_map_cons, lookup_mergeEntries keyed.1] at found
            rw [nodeAt, at_map_cons, at_map_cons]
            cases held : second.lookup key with
            | none =>
                rw [held] at found
                exact .inl found
            | some value =>
                rw [held] at found
                dsimp only at found
                split at found
                · exact induction (fieldsKeyed_lookup keyed.2 held) found
                · cases found

theorem leaf_of_mergeEntries {existing incoming : Fields V}
    (keyed : (FieldValue.map incoming).Keyed) {path : List String} {leaf : FieldLeaf V}
    (found : (FieldValue.map (mergeEntries existing incoming)).at path = some (.leaf leaf)) :
    (FieldValue.map existing).at path = some (.leaf leaf) ∨
      (FieldValue.map incoming).at path = some (.leaf leaf) := by
  have merged : FieldValue.map (mergeEntries existing incoming) =
      mergeFieldValue (some (.map existing)) (.map incoming) := by
    rw [mergeFieldValue]
  rw [merged] at found
  exact leaf_of_mergeFieldValue path keyed found

end Ebb.Storage
