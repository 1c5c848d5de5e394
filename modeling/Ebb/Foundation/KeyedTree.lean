import Ebb.Foundation.OrderedMap

namespace Ebb

/-! Nested records: a tree whose inner nodes name their children by key and whose
leaves carry data. Two trees are joined by a rule for two leaves; a leaf that
only the second tree holds is taken over when it is admitted. -/

inductive KeyedTree (K : Type u) (L : Type v) where
  | leaf (content : L)
  | map (entries : List (K × KeyedTree K L))

namespace KeyedTree

variable {K : Type u} {L : Type v}

/-! ## Reading a path -/

/-- What stands at a path of a tree. -/
inductive Node (L : Type v) where
  | leaf (content : L)
  | map
deriving DecidableEq

mutual

/-- A record holds each of its keys once. -/
def Keyed : KeyedTree K L → Prop
  | .leaf _ => True
  | .map entries => (entries.map Prod.fst).Nodup ∧ entriesKeyed entries

def entriesKeyed : List (K × KeyedTree K L) → Prop
  | [] => True
  | (_, value) :: rest => value.Keyed ∧ entriesKeyed rest

end

section Paths

variable [DecidableEq K]

def get? : KeyedTree K L → List K → Option (Node L)
  | .leaf content, [] => some (.leaf content)
  | .map _, [] => some .map
  | .leaf _, _ :: _ => none
  | .map entries, key :: path =>
      match entries.lookup key with
      | none => none
      | some value => value.get? path

def entryGet? (value : Option (KeyedTree K L)) (path : List K) : Option (Node L) :=
  match value with
  | none => none
  | some value => value.get? path

theorem get?_map_cons (entries : List (K × KeyedTree K L)) (key : K) (path : List K) :
    (map entries).get? (key :: path) = entryGet? (entries.lookup key) path := by
  cases found : entries.lookup key with
  | none => simp [KeyedTree.get?, entryGet?, found]
  | some value => simp [KeyedTree.get?, entryGet?, found]

/-- The same content at every path, so equal up to the order of the keys. -/
def Same (left right : KeyedTree K L) : Prop := ∀ path, left.get? path = right.get? path

variable {key : K} {entries : List (K × KeyedTree K L)} {value incoming existing : KeyedTree K L}
  {path : List K}

theorem entriesKeyed_lookup (keyed : entriesKeyed entries) (found : entries.lookup key = some value)
    :
    value.Keyed := by
  induction entries with
  | nil => cases found
  | cons entry rest induction =>
      rcases entry with ⟨head, existing⟩
      rw [lookup_cons_eq] at found
      split at found
      · exact Option.some.inj found ▸ keyed.1
      · exact induction keyed.2 found

theorem entriesKeyed_setEntry (keyed : entriesKeyed entries) (key : K) (valueKeyed : value.Keyed) :
    entriesKeyed (setEntry key value entries) := by
  induction entries with
  | nil => exact ⟨valueKeyed, trivial⟩
  | cons entry rest induction =>
      rcases entry with ⟨head, existing⟩
      rw [setEntry]
      split
      · exact ⟨valueKeyed, keyed.2⟩
      · exact ⟨keyed.1, induction keyed.2⟩

/-! ## Joining two trees -/

variable (rule : L → L → L) (admits : K → L → Bool)

def admitted (key : K) : KeyedTree K L → Bool
  | .leaf content => admits key content
  | .map _ => true

mutual

def join : KeyedTree K L → KeyedTree K L → KeyedTree K L
  | .leaf existing, .leaf incoming => .leaf (rule existing incoming)
  | .map existing, .map incoming => .map (joinEntries existing incoming)
  | .map _, .leaf incoming => .leaf incoming
  | .leaf _, .map incoming => .map incoming

def joinEntries :
    List (K × KeyedTree K L) → List (K × KeyedTree K L) → List (K × KeyedTree K L)
  | existing, [] => existing
  | existing, (key, value) :: rest =>
      joinEntries
        (match existing.lookup key with
        | some previous => setEntry key (join previous value) existing
        | none => if admitted admits key value then setEntry key value existing else existing)
        rest

end

def joinEntry (key : K) :
    Option (KeyedTree K L) → Option (KeyedTree K L) → Option (KeyedTree K L)
  | existing, none => existing
  | some existing, some incoming => some (join rule admits existing incoming)
  | none, some incoming => if admitted admits key incoming then some incoming else none

variable {rule admits}

theorem lookup_joinEntries {incoming : List (K × KeyedTree K L)}
    (nodup : (incoming.map Prod.fst).Nodup) (existing : List (K × KeyedTree K L)) (key : K) :
    (joinEntries rule admits existing incoming).lookup key =
      joinEntry rule admits key (existing.lookup key) (incoming.lookup key) := by
  induction incoming generalizing existing with
  | nil => simp [joinEntries, joinEntry]
  | cons entry rest induction =>
      rcases entry with ⟨head, value⟩
      have parts := List.nodup_cons.mp nodup
      rw [joinEntries, induction parts.2, lookup_cons_eq]
      by_cases equal : key = head
      · subst equal
        have absent : rest.lookup key = none := by
          rw [← Option.not_isSome_iff_eq_none, lookup_isSome_iff_mem_keys]
          exact parts.1
        rw [absent, if_pos rfl]
        cases found : existing.lookup key with
        | some previous => simp only [joinEntry, lookup_setEntry_self]
        | none =>
            simp only [joinEntry]
            split
            · rw [lookup_setEntry_self]
            · exact found
      · rw [if_neg equal]
        cases existing.lookup head with
        | some previous => rw [lookup_setEntry_of_ne equal]
        | none =>
            dsimp only
            split
            · rw [lookup_setEntry_of_ne equal]
            · rfl

theorem nodup_joinEntries {existing : List (K × KeyedTree K L)}
    (nodup : (existing.map Prod.fst).Nodup) (incoming : List (K × KeyedTree K L)) :
    ((joinEntries rule admits existing incoming).map Prod.fst).Nodup := by
  induction incoming generalizing existing with
  | nil => simpa only [joinEntries] using nodup
  | cons entry rest induction =>
      rcases entry with ⟨key, value⟩
      rw [joinEntries]
      apply induction
      split
      · exact nodup_keys_setEntry nodup key _
      · split
        · exact nodup_keys_setEntry nodup key _
        · exact nodup

mutual

theorem Keyed.join : ∀ {existing incoming : KeyedTree K L}, existing.Keyed → incoming.Keyed →
    (KeyedTree.join rule admits existing incoming).Keyed
  | .leaf _, .leaf _, _, _ => by
      rw [KeyedTree.join]
      trivial
  | .map _, .leaf _, _, _ => by
      rw [KeyedTree.join]
      trivial
  | .leaf _, .map _, _, keyed => by
      rw [KeyedTree.join]
      exact keyed
  | .map _, .map incoming, existingKeyed, keyed => by
      rw [KeyedTree.join]
      exact ⟨nodup_joinEntries existingKeyed.1 incoming,
        entriesKeyed_joinEntries existingKeyed.2 keyed.2⟩

theorem entriesKeyed_joinEntries : ∀ {existing incoming : List (K × KeyedTree K L)},
    entriesKeyed existing → entriesKeyed incoming →
      entriesKeyed (joinEntries rule admits existing incoming)
  | _, [], existingKeyed, _ => by
      rw [joinEntries]
      exact existingKeyed
  | existing, (key, value) :: rest, existingKeyed, keyed => by
      rw [joinEntries]
      apply entriesKeyed_joinEntries _ keyed.2
      split
      · next previous found =>
          exact entriesKeyed_setEntry existingKeyed key
            (Keyed.join (entriesKeyed_lookup existingKeyed found) keyed.1)
      · split
        · exact entriesKeyed_setEntry existingKeyed key keyed.1
        · exact existingKeyed

end

theorem join_map_map (existing incoming : List (K × KeyedTree K L)) :
    join rule admits (map existing) (map incoming) =
      map (joinEntries rule admits existing incoming) := by
  rw [join]

theorem get?_join_cons {existing incoming : List (K × KeyedTree K L)}
    (nodup : (incoming.map Prod.fst).Nodup) (key : K) (path : List K) :
    (join rule admits (map existing) (map incoming)).get? (key :: path) =
      entryGet? (joinEntry rule admits key (existing.lookup key) (incoming.lookup key)) path := by
  rw [join_map_map, get?_map_cons, lookup_joinEntries nodup]

/-! ## Joins read path by path -/

/-- Neither tree has a leaf where the other has a record. -/
def OneKind (left right : KeyedTree K L) : Prop :=
  ∀ path first second, left.get? path = some first → right.get? path = some second →
    (first = .map ↔ second = .map)

/-- Every leaf that `incoming` adds to a record of `existing` is admitted. -/
def AdmitsNew (admits : K → L → Bool) (existing incoming : KeyedTree K L) : Prop :=
  ∀ path key content, existing.get? path = some .map → existing.get? (path ++ [key]) = none →
    incoming.get? (path ++ [key]) = some (.leaf content) → admits key content = true

theorem OneKind.refl (tree : KeyedTree K L) : OneKind tree tree := by
  intro path first second found other
  rw [Option.some.inj (found.symm.trans other)]

theorem OneKind.symm {left right : KeyedTree K L} (oneKind : OneKind left right) :
    OneKind right left :=
  fun path first second found other => (oneKind path second first other found).symm

theorem OneKind.below {left right : List (K × KeyedTree K L)}
    (oneKind : OneKind (map left) (map right)) {first second : KeyedTree K L}
    (found : left.lookup key = some first) (other : right.lookup key = some second) :
    OneKind first second := by
  intro path firstNode secondNode
  have below := oneKind (key :: path) firstNode secondNode
  rw [get?_map_cons, get?_map_cons, found, other] at below
  exact below

theorem AdmitsNew.below {existing incoming : List (K × KeyedTree K L)}
    (admitsNew : AdmitsNew admits (map existing) (map incoming)) {first second : KeyedTree K L}
    (found : existing.lookup key = some first) (other : incoming.lookup key = some second)
    : AdmitsNew admits first second := by
  intro path inner content
  have below := admitsNew (key :: path) inner content
  rw [List.cons_append, get?_map_cons, get?_map_cons, get?_map_cons, found, other] at below
  exact below

theorem AdmitsNew.admitted {existing incoming : List (K × KeyedTree K L)}
    (admitsNew : AdmitsNew admits (map existing) (map incoming))
    (absent : existing.lookup key = none) (found : incoming.lookup key = some value)
    : admitted admits key value = true := by
  cases value with
  | map entries => rfl
  | leaf content =>
      apply admitsNew [] key content rfl
      · rw [List.nil_append, get?_map_cons, absent]
        rfl
      · rw [List.nil_append, get?_map_cons, found]
        rfl

variable (rule) in
def joinNode : Option (Node L) → Option (Node L) → Option (Node L)
  | existing, none => existing
  | none, some incoming => some incoming
  | some (.leaf existing), some (.leaf incoming) => some (.leaf (rule existing incoming))
  | some _, some .map => some .map
  | some .map, some (.leaf incoming) => some (.leaf incoming)

theorem get?_join (path : List K) (keyed : incoming.Keyed) (oneKind : OneKind existing incoming)
    (admitsNew : AdmitsNew admits existing incoming) :
    (join rule admits existing incoming).get? path =
      joinNode rule (existing.get? path) (incoming.get? path) := by
  induction path generalizing existing incoming with
  | nil =>
      rcases existing with ⟨_⟩ | ⟨_⟩ <;> rcases incoming with ⟨_⟩ | ⟨_⟩ <;>
        simp [join, get?, joinNode]
  | cons key path induction =>
      rcases existing with ⟨leaf⟩ | ⟨existing⟩ <;> rcases incoming with ⟨other⟩ | ⟨incoming⟩
      · simp [join, get?, joinNode]
      · have kinds := oneKind [] _ _ rfl rfl
        simp at kinds
      · have kinds := oneKind [] _ _ rfl rfl
        simp at kinds
      · rw [get?_join_cons keyed.1, get?_map_cons, get?_map_cons]
        cases found : incoming.lookup key with
        | none => rfl
        | some value =>
            cases present : existing.lookup key with
            | none =>
                rw [joinEntry, if_pos (admitsNew.admitted present found)]
                cases inner : entryGet? (some value) path with
                | none => rfl
                | some node => rfl
            | some previous =>
                exact induction (entriesKeyed_lookup keyed.2 found)
                  (oneKind.below present found) (admitsNew.below present found)

/-! ## Single nodes of a join -/

theorem exists_lookup_of_get? {node : Node L} (found : (map entries).get? (key :: path) = some node)
    :
    ∃ value, entries.lookup key = some value ∧ value.get? path = some node := by
  rw [get?_map_cons] at found
  cases present : entries.lookup key with
  | none =>
      rw [present] at found
      cases found
  | some value =>
      rw [present] at found
      exact ⟨value, rfl, found⟩

theorem lookup_eq_none_of_get? (absent : (map entries).get? [key] = none)
    : entries.lookup key = none := by
  rw [get?_map_cons] at absent
  cases present : entries.lookup key with
  | none => rfl
  | some value =>
      rw [present] at absent
      rcases value with ⟨_⟩ | ⟨_⟩ <;> cases absent

theorem get?_join_leaf (keyed : incoming.Keyed) {first second : L}
    (found : existing.get? path = some (.leaf first))
    (other : incoming.get? path = some (.leaf second)) :
    (join rule admits existing incoming).get? path = some (.leaf (rule first second)) := by
  induction path generalizing existing incoming with
  | nil =>
      rcases existing with ⟨_⟩ | ⟨_⟩ <;> rcases incoming with ⟨_⟩ | ⟨_⟩
      · cases found
        cases other
        rw [join, get?]
      · cases other
      · cases found
      · cases found
  | cons key path induction =>
      rcases existing with ⟨_⟩ | ⟨existing⟩ <;> rcases incoming with ⟨_⟩ | ⟨incoming⟩
      · cases found
      · cases found
      · cases other
      · rcases exists_lookup_of_get? found with ⟨previous, present, found⟩
        rcases exists_lookup_of_get? other with ⟨value, arrived, other⟩
        rw [get?_join_cons keyed.1, present, arrived]
        exact induction (entriesKeyed_lookup keyed.2 arrived) found other

theorem get?_join_new (keyed : incoming.Keyed) {content : L}
    (record : existing.get? path = some .map) (absent : existing.get? (path ++ [key]) = none)
    (found : incoming.get? (path ++ [key]) = some (.leaf content)) :
    (join rule admits existing incoming).get? (path ++ [key]) =
      if admits key content then some (.leaf content) else none := by
  induction path generalizing existing incoming with
  | nil =>
      rcases existing with ⟨_⟩ | ⟨existing⟩ <;> rcases incoming with ⟨_⟩ | ⟨incoming⟩
      · cases record
      · cases record
      · cases found
      · rcases exists_lookup_of_get? found with ⟨value, arrived, found⟩
        have leaf : value = .leaf content := by
          rcases value with ⟨_⟩ | ⟨_⟩
          · cases found
            rfl
          · cases found
        rw [List.nil_append, get?_join_cons keyed.1, lookup_eq_none_of_get? absent, arrived, leaf,
          joinEntry, admitted]
        split <;> rfl
  | cons head path induction =>
      rcases existing with ⟨_⟩ | ⟨existing⟩ <;> rcases incoming with ⟨_⟩ | ⟨incoming⟩
      · cases record
      · cases record
      · cases found
      · rcases exists_lookup_of_get? record with ⟨previous, present, record⟩
        rcases exists_lookup_of_get? found with ⟨value, arrived, found⟩
        rw [List.cons_append, get?_map_cons, present] at absent
        rw [List.cons_append, get?_join_cons keyed.1, present, arrived]
        exact induction (entriesKeyed_lookup keyed.2 arrived) record absent found

theorem get?_join_kept (keyed : incoming.Keyed) {node : Node L}
    (record : incoming.get? path = some .map) (absent : incoming.get? (path ++ [key]) = none)
    (found : existing.get? (path ++ [key]) = some node) :
    (join rule admits existing incoming).get? (path ++ [key]) = some node := by
  induction path generalizing existing incoming with
  | nil =>
      rcases existing with ⟨_⟩ | ⟨existing⟩ <;> rcases incoming with ⟨_⟩ | ⟨incoming⟩
      · cases record
      · cases found
      · cases record
      · rw [List.nil_append, get?_join_cons keyed.1, lookup_eq_none_of_get? absent, joinEntry,
          ← get?_map_cons]
        exact found
  | cons head path induction =>
      rcases existing with ⟨_⟩ | ⟨existing⟩ <;> rcases incoming with ⟨_⟩ | ⟨incoming⟩
      · cases record
      · cases found
      · cases record
      · rcases exists_lookup_of_get? record with ⟨value, arrived, record⟩
        rcases exists_lookup_of_get? found with ⟨previous, present, found⟩
        rw [List.cons_append, get?_map_cons, arrived] at absent
        rw [List.cons_append, get?_join_cons keyed.1, present, arrived]
        exact induction (entriesKeyed_lookup keyed.2 arrived) record absent found

/-! ## Two joins compared -/

section Comparison

variable {otherRule : L → L → L} {otherAdmits : K → L → Bool}

theorem same_of_agree {existing incoming : KeyedTree K L} (keyed : incoming.Keyed)
    (leaves : ∀ path first second, existing.get? path = some (.leaf first) →
      incoming.get? path = some (.leaf second) → rule first second = otherRule first second)
    (news : ∀ path key content, existing.get? path = some .map →
      existing.get? (path ++ [key]) = none →
        incoming.get? (path ++ [key]) = some (.leaf content) →
          admits key content = otherAdmits key content) :
    Same (join rule admits existing incoming) (join otherRule otherAdmits existing incoming) := by
  intro path
  induction path generalizing existing incoming with
  | nil =>
      rcases existing with ⟨_⟩ | ⟨_⟩ <;> rcases incoming with ⟨_⟩ | ⟨_⟩
      · simp only [join, get?, leaves [] _ _ rfl rfl]
      · rw [join, join]
      · rw [join, join]
      · rw [join, join, get?, get?]
  | cons key path induction =>
      rcases existing with ⟨_⟩ | ⟨existing⟩ <;> rcases incoming with ⟨_⟩ | ⟨incoming⟩
      · rw [join, join, get?, get?]
      · rw [join, join]
      · rw [join, join]
      · rw [get?_join_cons keyed.1, get?_join_cons keyed.1]
        cases arrived : incoming.lookup key with
        | none => rfl
        | some value =>
            cases present : existing.lookup key with
            | none =>
                have agree : admitted admits key value = admitted otherAdmits key value := by
                  cases value with
                  | map entries => rfl
                  | leaf content =>
                      apply news [] key content rfl
                      · rw [List.nil_append, get?_map_cons, present]
                        rfl
                      · rw [List.nil_append, get?_map_cons, arrived]
                        rfl
                rw [joinEntry, joinEntry, agree]
            | some previous =>
                apply induction (entriesKeyed_lookup keyed.2 arrived)
                · intro inner first second found other
                  apply leaves (key :: inner) first second
                  · rw [get?_map_cons, present]
                    exact found
                  · rw [get?_map_cons, arrived]
                    exact other
                · intro inner innerKey content record absent found
                  apply news (key :: inner) innerKey content
                  · rw [get?_map_cons, present]
                    exact record
                  · rw [List.cons_append, get?_map_cons, present]
                    exact absent
                  · rw [List.cons_append, get?_map_cons, arrived]
                    exact found

theorem same_join_iff {existing incoming : KeyedTree K L} (keyed : incoming.Keyed) :
    Same (join rule admits existing incoming) (join otherRule otherAdmits existing incoming) ↔
      (∀ path first second, existing.get? path = some (.leaf first) →
        incoming.get? path = some (.leaf second) →
          rule first second = otherRule first second) ∧
      (∀ path key content, existing.get? path = some .map →
        existing.get? (path ++ [key]) = none →
          incoming.get? (path ++ [key]) = some (.leaf content) →
            admits key content = otherAdmits key content) := by
  constructor
  · intro same
    constructor
    · intro path first second found other
      have node := same path
      rw [get?_join_leaf keyed found other, get?_join_leaf keyed found other] at node
      exact Node.leaf.inj (Option.some.inj node)
    · intro path key content record absent found
      have node := same (path ++ [key])
      rw [get?_join_new keyed record absent found, get?_join_new keyed record absent found] at node
      cases first : admits key content <;> cases second : otherAdmits key content <;>
        simp_all
  · intro agree
    exact same_of_agree keyed agree.1 agree.2

end Comparison

/-! ## What a join adds to the second tree -/

theorem same_incoming_of_absorbed (keyed : incoming.Keyed)
    (leaves : ∀ path first second, existing.get? path = some (.leaf first) →
      incoming.get? path = some (.leaf second) → rule first second = second)
    (news : AdmitsNew admits existing incoming)
    (keys : ∀ path key, existing.get? path = some .map → incoming.get? path = some .map →
      incoming.get? (path ++ [key]) = none → existing.get? (path ++ [key]) = none) :
    Same (join rule admits existing incoming) incoming := by
  intro path
  induction path generalizing existing incoming with
  | nil =>
      rcases existing with ⟨_⟩ | ⟨_⟩ <;> rcases incoming with ⟨_⟩ | ⟨_⟩
      · simp only [join, get?, leaves [] _ _ rfl rfl]
      · rw [join]
      · rw [join]
      · rw [join, get?, get?]
  | cons key path induction =>
      rcases existing with ⟨_⟩ | ⟨existing⟩ <;> rcases incoming with ⟨_⟩ | ⟨incoming⟩
      · rw [join, get?, get?]
      · rw [join]
      · rw [join]
      · rw [get?_join_cons keyed.1, get?_map_cons]
        cases arrived : incoming.lookup key with
        | none =>
            have missing : (map incoming).get? [key] = none := by
              rw [get?_map_cons, arrived]
              rfl
            rw [joinEntry, lookup_eq_none_of_get? (keys [] key rfl rfl missing)]
        | some value =>
            cases present : existing.lookup key with
            | none => rw [joinEntry, if_pos (news.admitted present arrived)]
            | some previous =>
                apply induction (entriesKeyed_lookup keyed.2 arrived)
                · intro inner first second found other
                  apply leaves (key :: inner) first second
                  · rw [get?_map_cons, present]
                    exact found
                  · rw [get?_map_cons, arrived]
                    exact other
                · exact news.below present arrived
                · intro inner innerKey record other missing
                  have below := keys (key :: inner) innerKey
                  rw [List.cons_append, get?_map_cons, get?_map_cons, get?_map_cons, get?_map_cons,
                    present, arrived] at below
                  exact below record other missing

theorem same_incoming_iff (keyed : incoming.Keyed) :
    Same (join rule admits existing incoming) incoming ↔
      (∀ path first second, existing.get? path = some (.leaf first) →
        incoming.get? path = some (.leaf second) → rule first second = second) ∧
      AdmitsNew admits existing incoming ∧
      (∀ path key, existing.get? path = some .map → incoming.get? path = some .map →
        incoming.get? (path ++ [key]) = none → existing.get? (path ++ [key]) = none) := by
  constructor
  · intro same
    refine ⟨?_, ?_, ?_⟩
    · intro path first second found other
      have node := same path
      rw [get?_join_leaf keyed found other, other] at node
      exact Node.leaf.inj (Option.some.inj node)
    · intro path key content record absent found
      have node := same (path ++ [key])
      rw [get?_join_new keyed record absent found, found] at node
      cases decided : admits key content with
      | true => rfl
      | false => simp [decided] at node
    · intro path key _ other missing
      cases kept : existing.get? (path ++ [key]) with
      | none => rfl
      | some node =>
          have read := same (path ++ [key])
          rw [get?_join_kept keyed other missing kept, missing] at read
          cases read
  · rintro ⟨leaves, news, keys⟩
    exact same_incoming_of_absorbed keyed leaves news keys

end Paths

end KeyedTree

end Ebb
