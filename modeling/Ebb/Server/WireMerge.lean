import Ebb.Core.FieldSemilattice
import Ebb.Server.FieldMerge

namespace Ebb.Server.WireMerge

/-! The server's merge of the values as they arrive, beside the client's. -/

open Wire (WireLeaf WireField Property WellFormed writesNew)

/-- `new_id >= existing_id` on terms: the atom `nil` sorts before every binary. -/
def termGe : Option String → Option String → Bool
  | some new, some existing =>
      !(FieldMerge.codePoints new).lex (FieldMerge.codePoints existing)
  | some _, none => true
  | none, some _ => false
  | none, none => true

def tiebreakWinner (new existing : WireLeaf V) : WireLeaf V :=
  if termGe new.updateId existing.updateId then new else existing

mutual

def merge : Option (WireField V) → WireField V → WireField V
  | none, incoming => incoming
  | some (.map existing), .map incoming => .map (mergeMaps existing incoming)
  | some (.map _), .leaf incoming => .leaf incoming
  | some (.leaf _), .map incoming => .map incoming
  | some (.leaf existing), .leaf incoming =>
      match FieldMerge.compareHlc incoming.hlc existing.hlc with
      | .gt => .leaf incoming
      | .lt => .leaf existing
      | .eq => .leaf (tiebreakWinner incoming existing)

/-- `Map.merge`, which resolves the keys of both maps. -/
def mergeMaps :
    List (String × WireField V) → List (String × WireField V) → List (String × WireField V)
  | existing, [] => existing
  | existing, (key, value) :: rest =>
      mergeMaps (setEntry key (merge (existing.lookup key) value) existing) rest

end

/-! ## The merge as a join -/

def leafWinner (existing incoming : WireLeaf V) : WireLeaf V :=
  match FieldMerge.compareHlc incoming.hlc existing.hlc with
  | .gt => incoming
  | .lt => existing
  | .eq => tiebreakWinner incoming existing

def joined (existing incoming : WireField V) : WireField V :=
  KeyedTree.join leafWinner (fun _ _ => true) existing incoming

theorem admitted_true (key : String) (value : WireField V) :
    KeyedTree.admitted (fun _ _ => true) key value = true := by
  cases value <;> rfl

mutual

theorem merge_some : ∀ existing incoming : WireField V,
    merge (some existing) incoming = joined existing incoming
  | .leaf _, .leaf _ => by
      rw [merge, joined, KeyedTree.join, leafWinner]
      split <;> rfl
  | .map _, .leaf _ => by rw [merge, joined, KeyedTree.join]
  | .leaf _, .map _ => by rw [merge, joined, KeyedTree.join]
  | .map existing, .map incoming => by
      rw [merge, joined, KeyedTree.join, mergeMaps_eq existing incoming]

theorem mergeMaps_eq : ∀ existing incoming : List (String × WireField V),
    mergeMaps existing incoming =
      KeyedTree.joinEntries leafWinner (fun _ _ => true) existing incoming
  | _, [] => by rw [mergeMaps, KeyedTree.joinEntries]
  | existing, (key, value) :: rest => by
      rw [mergeMaps, KeyedTree.joinEntries, mergeMaps_eq _ rest]
      cases existing.lookup key with
      | some previous =>
          rw [merge_some previous value]
          rfl
      | none =>
          rw [merge]
          simp only [admitted_true, if_true]

end

/-! ## Agreement with the client's merge -/

def HasIds (value : WireField V) : Prop :=
  ∀ path leaf, value.get? path = some (.leaf leaf) → leaf.updateId.isSome = true

def property : Option (WireField V) → Property V
  | none => .undefined
  | some value => .field value

theorem compareHlc_eq (existing incoming : WireLeaf V) :
    FieldMerge.compareHlc incoming.hlc existing.hlc =
      if existing.time < incoming.time then .gt
      else if incoming.time < existing.time then .lt
      else .eq := by
  have time : ∀ leaf : WireLeaf V, FieldMerge.hlcValue leaf.hlc = leaf.time := by
    intro leaf
    rw [WireLeaf.time]
    cases leaf.hlc <;> rfl
  rw [FieldMerge.compareHlc, time, time]

theorem mergeLeaf_eq_leafWinner_iff {existing incoming : WireLeaf V}
    {existingId incomingId : String}
    (hasExisting : existing.updateId = some existingId)
    (hasIncoming : incoming.updateId = some incomingId) :
    Wire.mergeLeaf existing incoming = leafWinner existing incoming ↔
      (existing.time = incoming.time →
        ordersDiffer incomingId.toList existingId.toList = false) := by
  rw [leafWinner, compareHlc_eq, Wire.mergeLeaf]
  rcases Nat.lt_trichotomy existing.time incoming.time with earlier | level | later
  · simp [earlier, Nat.ne_of_lt earlier]
  · have client : Wire.updateIdGe incoming.updateId existing.updateId =
        !(incomingId.toList.flatMap charUnits).lex (existingId.toList.flatMap charUnits) := by
      rw [hasIncoming, hasExisting]
      rfl
    have server : termGe incoming.updateId existing.updateId =
        !(incomingId.toList.map Char.toNat).lex (existingId.toList.map Char.toNat) := by
      rw [hasIncoming, hasExisting]
      rfl
    have agree := lex_eq_lex_iff incomingId.toList existingId.toList
    simp only [level, Nat.lt_irrefl, if_false, true_implies, tiebreakWinner, client, server]
    rw [← agree]
    constructor
    · intro same
      by_cases equal : existing = incoming
      · have ids : incomingId = existingId := by
          rw [← Option.some_inj, ← hasIncoming, ← hasExisting, equal]
        rw [agree, ids, ordersDiffer_self]
      · cases client : (incomingId.toList.flatMap charUnits).lex
            (existingId.toList.flatMap charUnits) <;>
          cases server : (incomingId.toList.map Char.toNat).lex
            (existingId.toList.map Char.toNat) <;>
          rw [client, server] at same <;>
          first | rfl | exact absurd same equal | exact absurd same.symm equal
    · intro same
      rw [same]
  · have notEarlier := Nat.lt_asymm later
    simp [later, notEarlier, Nat.ne_of_gt later]

/-- The two merges choose the same leaf at every path exactly when every tie is
between ids that both string orders compare alike, and no write of time zero meets
a name that plain objects inherit. -/
theorem merges_agree_iff {existing : Option (WireField V)} {incoming : WireField V}
    (existingIds : ∀ value, existing = some value → HasIds value)
    (wellFormed : WellFormed incoming) (ids : HasIds incoming) :
    (∀ path, (Wire.mergeFieldValue (property existing) incoming).get? path =
        (merge existing incoming).get? path) ↔
      ∀ value, existing = some value →
        (∀ path first second firstId secondId, value.get? path = some (.leaf first) →
          incoming.get? path = some (.leaf second) → first.time = second.time →
            first.updateId = some firstId → second.updateId = some secondId →
              ordersDiffer secondId.toList firstId.toList = false) ∧
        (∀ path key content, value.get? path = some .map → value.get? (path ++ [key]) = none →
          incoming.get? (path ++ [key]) = some (.leaf content) →
            key ∈ objectPrototype → 0 < content.time) := by
  cases existing with
  | none =>
      constructor
      · intro _ value absent
        cases absent
      · intro _ path
        rw [property, Wire.mergeFieldValue, merge]
        rfl
  | some value =>
      have valueIds := existingIds value rfl
      have compared := @KeyedTree.same_join_iff _ _ _ Wire.mergeLeaf writesNew leafWinner
        (fun _ _ => true) value incoming wellFormed.keyed
      rw [property, Wire.mergeFieldValue_field, merge_some]
      constructor
      · intro same other equal
        cases equal
        have agree := compared.mp same
        constructor
        · intro path first second firstId secondId found arrived level hasFirst hasSecond
          exact (mergeLeaf_eq_leafWinner_iff hasFirst hasSecond).mp
            (agree.1 path first second found arrived) level
        · intro path key content record absent arrived inherited
          have written := agree.2 path key content record absent arrived
          simpa [writesNew, inherited] using written
      · intro conditions
        rcases conditions value rfl with ⟨ties, news⟩
        apply compared.mpr
        constructor
        · intro path first second found arrived
          rcases Option.isSome_iff_exists.mp (valueIds path first found) with ⟨firstId, hasFirst⟩
          rcases Option.isSome_iff_exists.mp (ids path second arrived) with ⟨secondId, hasSecond⟩
          apply (mergeLeaf_eq_leafWinner_iff hasFirst hasSecond).mpr
          intro level
          exact ties path first second firstId secondId found arrived level hasFirst hasSecond
        · intro path key content record absent arrived
          by_cases inherited : key ∈ objectPrototype
          · simp [writesNew, news path key content record absent arrived inherited]
          · simp [writesNew, inherited]

open Wire (firstTitle secondTitle noWords constructorCounted)

theorem merges_agree_titles :
    (Wire.mergeFieldValue (property (some firstTitle)) secondTitle).get? =
      (merge (some firstTitle) secondTitle).get? := by
  have leafIds : ∀ leaf : WireLeaf Nat, leaf.updateId.isSome = true →
      HasIds (.leaf leaf : WireField Nat) := by
    intro leaf held path other found
    cases (Wire.get?_leaf_eq_some found).2
    exact held
  apply funext
  apply (merges_agree_iff _ (Wire.wellFormed_leaf _) (leafIds _ rfl)).mpr
  · intro value equal
    cases equal
    constructor
    · intro path first second firstId secondId found other _ hasFirst hasSecond
      cases (Wire.get?_leaf_eq_some found).2
      cases (Wire.get?_leaf_eq_some other).2
      cases hasFirst
      cases hasSecond
      decide
    · intro path key content record
      cases (Wire.get?_leaf_eq_some record).2
  · intro value equal
    cases equal
    exact leafIds _ rfl

/-- The server stores the word, the client loses it. -/
theorem not_merges_agree :
    ¬ ∀ existing incoming : WireField Nat, WellFormed existing → HasIds existing →
      WellFormed incoming → HasIds incoming →
        ∀ path, (Wire.mergeFieldValue (property (some existing)) incoming).get? path =
          (merge (some existing) incoming).get? path := by
  intro claimed
  have noIds : HasIds noWords := by
    intro path leaf found
    cases path <;> cases found
  have wordIds : HasIds constructorCounted := by
    intro path leaf found
    rw [Wire.get?_constructorCounted found]
    rfl
  have agree := claimed noWords constructorCounted Wire.wellFormed_noWords noIds
    Wire.wellFormed_constructorCounted wordIds ["constructor"]
  have lost : (Wire.mergeFieldValue (property (some noWords)) constructorCounted).get?
      ["constructor"] = none := by rfl
  have stored : (merge (some noWords) constructorCounted).get? ["constructor"] =
      some (.leaf ⟨1, some "upd_a", none⟩) := by rfl
  rw [lost, stored] at agree
  cases agree

end Ebb.Server.WireMerge
