import Ebb.Core.CodeUnits
import Ebb.Core.WireFields

namespace Ebb.Wire

/-! Which values the client's merge joins as a semilattice. -/

open KeyedTree (OneKind AdmitsNew Fits Joinable Same)

/-! ## The order of leaves -/

/-- `left` loses to `right` whichever of the two is there first. -/
def WireLeaf.Before (left right : WireLeaf V) : Prop :=
  left.time < right.time ∨
    left.time = right.time ∧ ∃ leftId rightId, left.updateId = some leftId ∧
      right.updateId = some rightId ∧ codeUnitsGe leftId rightId = false

theorem codeUnitsGe_false_iff {left right : String} :
    codeUnitsGe left right = false ↔ List.lt (codeUnits left) (codeUnits right) := by
  rw [← Bool.not_eq_true, codeUnitsGe_iff]
  exact List.not_le

variable {first second : WireLeaf V} {left right : WireField V} {path : List String}

theorem WireLeaf.Before.trans {third : WireLeaf V} (before : first.Before second)
    (after : second.Before third) : first.Before third := by
  rcases before with earlier | ⟨level, firstId, secondId, hasFirst, hasSecond, smaller⟩
  · rcases after with later | ⟨level, _⟩
    · exact .inl (Nat.lt_trans earlier later)
    · exact .inl (level ▸ earlier)
  · rcases after with later | ⟨sameTime, otherId, thirdId, hasOther, hasThird, greater⟩
    · exact .inl (level ▸ later)
    · have sameId : otherId = secondId := Option.some.inj (hasOther.symm.trans hasSecond)
      subst sameId
      exact .inr ⟨level.trans sameTime, firstId, thirdId, hasFirst, hasThird,
        codeUnitsGe_false_iff.mpr (List.lt_trans (codeUnitsGe_false_iff.mp smaller)
          (codeUnitsGe_false_iff.mp greater))⟩

theorem mergeLeaf_of_before {left right : WireLeaf V} (before : left.Before right) :
    mergeLeaf left right = right ∧ mergeLeaf right left = right := by
  rcases before with earlier | ⟨level, leftId, rightId, hasLeft, hasRight, smaller⟩
  · have notLater := Nat.lt_asymm earlier
    simp [mergeLeaf, earlier, notLater]
  · have larger : codeUnitsGe rightId leftId = true :=
      codeUnitsGe_iff.mpr (List.le_of_lt (codeUnitsGe_false_iff.mp smaller))
    simp [mergeLeaf, level, hasLeft, hasRight, updateIdGe, smaller, larger]

theorem mergeLeaf_eq_or (left right : WireLeaf V) :
    mergeLeaf left right = left ∨ mergeLeaf left right = right := by
  unfold mergeLeaf
  split_ifs
  · exact .inr rfl
  · exact .inl rfl
  · exact .inr rfl
  · exact .inl rfl

theorem mergeLeaf_self (leaf : WireLeaf V) : mergeLeaf leaf leaf = leaf :=
  (mergeLeaf_eq_or leaf leaf).elim id id

/-- The two leaves are one, or the merge puts one before the other. -/
def WireLeaf.Comparable (left right : WireLeaf V) : Prop :=
  left = right ∨ left.Before right ∨ right.Before left

theorem mergeLeaf_comm {left right : WireLeaf V} (comparable : left.Comparable right) :
    mergeLeaf left right = mergeLeaf right left := by
  rcases comparable with rfl | before | after
  · rfl
  · rw [(mergeLeaf_of_before before).1, (mergeLeaf_of_before before).2]
  · rw [(mergeLeaf_of_before after).1, (mergeLeaf_of_before after).2]

theorem mergeLeaf_assoc {third : WireLeaf V} (outer : first.Comparable second)
    (inner : second.Comparable third) (ends : first.Comparable third) :
    mergeLeaf (mergeLeaf first second) third = mergeLeaf first (mergeLeaf second third) := by
  rcases outer with rfl | before | after
  · rw [mergeLeaf_self]
    rcases ends with rfl | before | after
    · rw [mergeLeaf_self, mergeLeaf_self]
    · rw [(mergeLeaf_of_before before).1, (mergeLeaf_of_before before).1]
    · rw [(mergeLeaf_of_before after).2, mergeLeaf_self]
  · rw [(mergeLeaf_of_before before).1]
    rcases inner with rfl | inner | inner
    · rw [mergeLeaf_self, (mergeLeaf_of_before before).1]
    · rw [(mergeLeaf_of_before inner).1, (mergeLeaf_of_before (before.trans inner)).1]
    · rw [(mergeLeaf_of_before inner).2, (mergeLeaf_of_before before).1]
  · rw [(mergeLeaf_of_before after).2]
    rcases inner with rfl | inner | inner
    · rw [mergeLeaf_self]
    · rw [(mergeLeaf_of_before inner).1]
    · rw [(mergeLeaf_of_before inner).2, (mergeLeaf_of_before after).2,
        (mergeLeaf_of_before (inner.trans after)).2]

/-! ## Ties -/

/-- A leaf with the same timestamp and update id has the same content. -/
def ContentDetermined (left right : WireField V) : Prop :=
  ∀ path first second, left.get? path = some (.leaf first) →
    right.get? path = some (.leaf second) →
      first.hlc = second.hlc → first.updateId = second.updateId → first = second

/-- No two leaves at one path tie unless their stamps are the same or two update ids
decide, and no write of time zero stands under an inherited name that the other
value lacks. -/
structure Settled (left right : WireField V) : Prop where
  ties : ∀ path first second, left.get? path = some (.leaf first) →
    right.get? path = some (.leaf second) → first.time = second.time →
      first.hlc = second.hlc ∧ first.updateId = second.updateId ∨
        ∃ firstId secondId, first.updateId = some firstId ∧ second.updateId = some secondId ∧
          firstId ≠ secondId
  inherited : ∀ path key content, left.get? path = some .map →
    left.get? (path ++ [key]) = none → right.get? (path ++ [key]) = some (.leaf content) →
      key ∈ objectPrototype → 0 < content.time

theorem Settled.comparable (settled : Settled left right)
    (determined : ContentDetermined left right) (found : left.get? path = some (.leaf first))
    (other : right.get? path = some (.leaf second)) : first.Comparable second := by
  rcases Nat.lt_trichotomy first.time second.time with earlier | level | later
  · exact .inr (.inl (.inl earlier))
  · rcases settled.ties path first second found other level with same | ids
    · exact .inl (determined path first second found other same.1 same.2)
    · rcases ids with ⟨firstId, secondId, hasFirst, hasSecond, different⟩
      cases forward : codeUnitsGe firstId secondId with
      | false => exact .inr (.inl (.inr ⟨level, firstId, secondId, hasFirst, hasSecond, forward⟩))
      | true =>
          cases backward : codeUnitsGe secondId firstId with
          | false =>
              exact .inr (.inr (.inr ⟨level.symm, secondId, firstId, hasSecond, hasFirst,
                backward⟩))
          | true =>
              have equal := List.le_antisymm (codeUnitsGe_iff.mp forward)
                (codeUnitsGe_iff.mp backward)
              exact absurd (codeUnits_injective equal).symm different
  · exact .inr (.inr (.inl later))

theorem ties_of_comm (level : first.time = second.time)
    (comm : mergeLeaf first second = mergeLeaf second first) :
    first.hlc = second.hlc ∧ first.updateId = second.updateId ∨
      ∃ firstId secondId, first.updateId = some firstId ∧ second.updateId = some secondId ∧
        firstId ≠ secondId := by
  have same : first = second →
      first.hlc = second.hlc ∧ first.updateId = second.updateId := by
    rintro rfl
    exact ⟨rfl, rfl⟩
  have forward : mergeLeaf first second =
      if updateIdGe second.updateId first.updateId then second else first := by
    simp [mergeLeaf, level]
  have backward : mergeLeaf second first =
      if updateIdGe first.updateId second.updateId then first else second := by
    simp [mergeLeaf, level]
  rw [forward, backward] at comm
  cases hasFirst : first.updateId with
  | none =>
      rw [hasFirst] at comm same
      cases hasSecond : second.updateId with
      | none =>
          rw [hasSecond] at comm same
          exact .inl (same comm)
      | some secondId =>
          rw [hasSecond] at comm same
          exact .inl (same comm)
  | some firstId =>
      rw [hasFirst] at comm same
      cases hasSecond : second.updateId with
      | none =>
          rw [hasSecond] at comm same
          exact .inl (same comm)
      | some secondId =>
          rw [hasSecond] at comm same
          by_cases equal : firstId = secondId
          · subst equal
            have reflexive : codeUnitsGe firstId firstId = true :=
              codeUnitsGe_iff.mpr (List.le_refl _)
            rw [updateIdGe, reflexive] at comm
            exact .inl (same comm.symm)
          · exact .inr ⟨firstId, secondId, rfl, rfl, equal⟩

/-! ## The semilattice -/

/-- The same content at every path: equal up to the order of the keys. -/
def SameProperty (left right : Property V) : Prop := ∀ path, left.get? path = right.get? path

structure MergesAsSemilattice (values : List (WireField V)) : Prop where
  idempotent : ∀ a ∈ values, SameProperty (mergeFieldValue (.field a) a) (.field a)
  commutative : ∀ a ∈ values, ∀ b ∈ values,
    SameProperty (mergeFieldValue (.field a) b) (mergeFieldValue (.field b) a)
  associative : ∀ a ∈ values, ∀ b ∈ values, ∀ c ∈ values,
    ∃ bc, mergeFieldValue (.field b) c = .field bc ∧
      SameProperty (mergeFieldValue (mergeFieldValue (.field a) b) c)
        (mergeFieldValue (.field a) bc)
  anyOrder : ∀ writes others : List (WireField V), (∀ value ∈ writes, value ∈ values) →
    (∀ value, value ∈ writes ↔ value ∈ others) →
      SameProperty (writes.foldl mergeFieldValue .undefined)
        (others.foldl mergeFieldValue .undefined)

theorem foldl_mergeFieldValue (first : WireField V) (rest : List (WireField V)) :
    rest.foldl mergeFieldValue (.field first) = .field (rest.foldl merged first) := by
  induction rest generalizing first with
  | nil => rfl
  | cons head rest induction =>
      rw [List.foldl_cons, mergeFieldValue_field, induction, List.foldl_cons]

theorem admitsNew_iff :
    AdmitsNew writesNew left right ↔
      ∀ path key content, left.get? path = some .map → left.get? (path ++ [key]) = none →
        right.get? (path ++ [key]) = some (.leaf content) →
          key ∈ objectPrototype → 0 < content.time := by
  constructor
  · intro admits path key content record absent found inherited
    have written := admits path key content record absent found
    simpa [writesNew, inherited] using written
  · intro later path key content record absent found
    by_cases inherited : key ∈ objectPrototype
    · simp [writesNew, later path key content record absent found inherited]
    · simp [writesNew, inherited]

theorem joinable_of_settled {values : List (WireField V)}
    (wellFormed : ∀ value ∈ values, WellFormed value)
    (oneKind : ∀ a ∈ values, ∀ b ∈ values, OneKind a b)
    (determined : ∀ a ∈ values, ∀ b ∈ values, ContentDetermined a b)
    (settled : ∀ a ∈ values, ∀ b ∈ values, Settled a b) :
    Joinable mergeLeaf writesNew fun value => value ∈ values where
  keyed value member := (wellFormed value member).keyed
  fits left right leftIn rightIn :=
    { oneKind := oneKind left leftIn right rightIn
      admitsRight := admitsNew_iff.mpr (settled left leftIn right rightIn).inherited
      admitsLeft := admitsNew_iff.mpr (settled right rightIn left leftIn).inherited
      commutes := fun _ _ _ found other =>
        mergeLeaf_comm ((settled left leftIn right rightIn).comparable
          (determined left leftIn right rightIn) found other) }
  selects := mergeLeaf_eq_or
  associates a b c aIn bIn cIn _ _ _ _ first second third :=
    mergeLeaf_assoc
      ((settled a aIn b bIn).comparable (determined a aIn b bIn) first second)
      ((settled b bIn c cIn).comparable (determined b bIn c cIn) second third)
      ((settled a aIn c cIn).comparable (determined a aIn c cIn) first third)

theorem settled_of_comm (leftKeyed : left.Keyed) (rightKeyed : right.Keyed)
    (comm : Same (merged left right) (merged right left)) : Settled left right where
  ties path first second found other level := by
    have node := comm path
    rw [merged, merged, KeyedTree.get?_join_leaf rightKeyed found other,
      KeyedTree.get?_join_leaf leftKeyed other found] at node
    exact ties_of_comm level (KeyedTree.Node.leaf.inj (Option.some.inj node))
  inherited path key content record absent found inherited := by
    have node := comm (path ++ [key])
    rw [merged, merged, KeyedTree.get?_join_new rightKeyed record absent found,
      KeyedTree.get?_join_kept leftKeyed record absent found] at node
    split at node
    · next written => simpa [writesNew, inherited] using written
    · cases node

/-- Values of one kind whose stamps determine their content merge as a semilattice
exactly when no tie is left to the order of the writes and no write of time zero
meets an inherited name. -/
theorem mergesAsSemilattice_iff {values : List (WireField V)}
    (wellFormed : ∀ value ∈ values, WellFormed value)
    (oneKind : ∀ a ∈ values, ∀ b ∈ values, OneKind a b)
    (determined : ∀ a ∈ values, ∀ b ∈ values, ContentDetermined a b) :
    MergesAsSemilattice values ↔ ∀ a ∈ values, ∀ b ∈ values, Settled a b := by
  constructor
  · intro semilattice a aIn b bIn
    have comm := semilattice.commutative a aIn b bIn
    rw [mergeFieldValue_field, mergeFieldValue_field] at comm
    exact settled_of_comm (wellFormed a aIn).keyed (wellFormed b bIn).keyed comm
  · intro settled
    have joinable := joinable_of_settled wellFormed oneKind determined settled
    constructor
    · intro a aIn
      rw [mergeFieldValue_field]
      exact joinable.join_self aIn
    · intro a aIn b bIn
      rw [mergeFieldValue_field, mergeFieldValue_field]
      exact joinable.join_comm aIn bIn
    · intro a aIn b bIn c cIn
      apply Exists.intro (merged b c)
      rw [mergeFieldValue_field, mergeFieldValue_field, mergeFieldValue_field,
        mergeFieldValue_field]
      exact ⟨rfl, joinable.join_assoc aIn bIn cIn⟩
    · intro writes others held same
      cases writes with
      | nil =>
          cases others with
          | nil => exact fun _ => rfl
          | cons head rest => exact absurd ((same head).mpr List.mem_cons_self) List.not_mem_nil
      | cons first rest =>
          cases others with
          | nil => exact absurd ((same first).mp List.mem_cons_self) List.not_mem_nil
          | cons other others =>
              rw [List.foldl_cons, List.foldl_cons, mergeFieldValue, mergeFieldValue,
                foldl_mergeFieldValue, foldl_mergeFieldValue]
              exact joinable.foldl_join held same

/-! ### Two writes at one tie, and a write under an inherited name -/

def firstTitle : WireField Nat := .leaf { value := 1, updateId := some "upd_a", hlc := some 5 }

def secondTitle : WireField Nat := .leaf { value := 2, updateId := some "upd_b", hlc := some 5 }

theorem get?_leaf_eq_some {leaf : WireLeaf V} {node : KeyedTree.Node (WireLeaf V)}
    (found : (KeyedTree.leaf leaf : WireField V).get? path = some node) :
    path = [] ∧ node = .leaf leaf := by
  cases path with
  | nil => exact ⟨rfl, (Option.some.inj found).symm⟩
  | cons key path => cases found

theorem wellFormed_leaf (leaf : WireLeaf V) : WellFormed (.leaf leaf) where
  keyed := trivial
  noProto path := by cases path <;> rfl

theorem oneKind_leaf (first second : WireLeaf V) :
    OneKind (.leaf first : WireField V) (.leaf second) := by
  intro path left right found other
  rw [(get?_leaf_eq_some found).2, (get?_leaf_eq_some other).2]
  simp

theorem mergesAsSemilattice_titles : MergesAsSemilattice [firstTitle, secondTitle] := by
  have isLeaf : ∀ value ∈ [firstTitle, secondTitle], ∃ leaf, value = KeyedTree.leaf leaf ∧
      (leaf = ⟨1, some "upd_a", some 5⟩ ∨ leaf = ⟨2, some "upd_b", some 5⟩) := by
    intro value member
    simp only [List.mem_cons, List.not_mem_nil, or_false] at member
    rcases member with rfl | rfl
    · exact ⟨_, rfl, .inl rfl⟩
    · exact ⟨_, rfl, .inr rfl⟩
  apply (mergesAsSemilattice_iff _ _ _).mpr
  · intro a aIn b bIn
    rcases isLeaf a aIn with ⟨first, rfl, firstIs⟩
    rcases isLeaf b bIn with ⟨second, rfl, secondIs⟩
    constructor
    · intro path left right found other _
      cases (get?_leaf_eq_some found).2
      cases (get?_leaf_eq_some other).2
      rcases firstIs with rfl | rfl <;> rcases secondIs with rfl | rfl <;> simp
    · intro path key content record
      cases (get?_leaf_eq_some record).2
  · intro value member
    rcases isLeaf value member with ⟨leaf, rfl, _⟩
    exact wellFormed_leaf leaf
  · intro a aIn b bIn
    rcases isLeaf a aIn with ⟨first, rfl, _⟩
    rcases isLeaf b bIn with ⟨second, rfl, _⟩
    exact oneKind_leaf first second
  · intro a aIn b bIn path left right found other _ sameId
    rcases isLeaf a aIn with ⟨first, rfl, firstIs⟩
    rcases isLeaf b bIn with ⟨second, rfl, secondIs⟩
    cases (get?_leaf_eq_some found).2
    cases (get?_leaf_eq_some other).2
    rcases firstIs with rfl | rfl <;> rcases secondIs with rfl | rfl <;> simp_all

def noWords : WireField Nat := .map []

def constructorCounted : WireField Nat :=
  .map [("constructor", .leaf { value := 1, updateId := some "upd_a", hlc := none })]

theorem get?_noWords (deeper : path ≠ []) : noWords.get? path = none := by
  cases path with
  | nil => exact absurd rfl deeper
  | cons key path => rfl

theorem get?_constructorCounted {leaf : WireLeaf Nat}
    (found : constructorCounted.get? path = some (.leaf leaf)) :
    leaf = ⟨1, some "upd_a", none⟩ := by
  rcases path with _ | ⟨key, path⟩
  · cases found
  · rcases KeyedTree.exists_lookup_of_get? found with ⟨value, held, found⟩
    rw [lookup_cons_eq] at held
    split at held
    · cases held
      exact KeyedTree.Node.leaf.inj (get?_leaf_eq_some found).2
    · cases held

theorem wellFormed_noWords : WellFormed noWords where
  keyed := ⟨List.nodup_nil, trivial⟩
  noProto path := get?_noWords (by simp)

theorem wellFormed_constructorCounted : WellFormed constructorCounted where
  keyed := ⟨List.nodup_singleton _, trivial, trivial⟩
  noProto path := by
    rcases path with _ | ⟨key, path⟩
    · rfl
    · rw [List.cons_append, constructorCounted, KeyedTree.get?_map_cons, lookup_cons_eq]
      split
      · cases path <;> rfl
      · rfl

theorem oneKind_noWords : OneKind noWords constructorCounted := by
  intro path first second found other
  cases path with
  | nil =>
      cases found
      cases other
      rfl
  | cons key path => cases found

theorem not_mergesAsSemilattice :
    ¬ ∀ values : List (WireField Nat), (∀ value ∈ values, WellFormed value) →
      (∀ a ∈ values, ∀ b ∈ values, OneKind a b) →
        (∀ a ∈ values, ∀ b ∈ values, ContentDetermined a b) → MergesAsSemilattice values := by
  intro claimed
  have isOne : ∀ value ∈ [noWords, constructorCounted],
      value = noWords ∨ value = constructorCounted := by
    intro value member
    simpa using member
  have semilattice := claimed [noWords, constructorCounted] (by
    intro value member
    rcases isOne value member with rfl | rfl
    · exact wellFormed_noWords
    · exact wellFormed_constructorCounted) (by
    intro a aIn b bIn
    rcases isOne a aIn with rfl | rfl <;> rcases isOne b bIn with rfl | rfl
    · exact OneKind.refl noWords
    · exact oneKind_noWords
    · exact oneKind_noWords.symm
    · exact OneKind.refl constructorCounted) (by
    intro a aIn b bIn path first second found other _ _
    have onlyLeaf : ∀ value ∈ [noWords, constructorCounted], ∀ leaf,
        value.get? path = some (.leaf leaf) → leaf = ⟨1, some "upd_a", none⟩ := by
      intro value member leaf found
      rcases isOne value member with rfl | rfl
      · cases path <;> cases found
      · exact get?_constructorCounted found
    rw [onlyLeaf a aIn first found, onlyLeaf b bIn second other])
  have comm := semilattice.commutative noWords List.mem_cons_self constructorCounted
    (List.mem_cons_of_mem _ List.mem_cons_self) ["constructor"]
  have dropped : (mergeFieldValue (.field noWords) constructorCounted).get? ["constructor"] =
      none := by rfl
  have kept : (mergeFieldValue (.field constructorCounted) noWords).get? ["constructor"] =
      some (.leaf ⟨1, some "upd_a", none⟩) := by rfl
  rw [dropped, kept] at comm
  cases comm

end Ebb.Wire
