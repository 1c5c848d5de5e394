import Ebb.Storage.MapField

namespace Ebb.Storage.MapField

open Ebb.Wire

variable {V : Type}

/-! Merges into a resident value against the merges of the plain values. A plain resident value
is the plain value. A container holds the keys of a plain map, each with its value, in the order
of its shards. -/

section Options

variable {α β : Type} {R : α → β → Prop}

theorem rel_or {left other : Option α} {right another : Option β} (first : Option.Rel R left right)
    (second : Option.Rel R other another) : Option.Rel R (left.or other) (right.or another) := by
  cases first with
  | none => simpa using second
  | some holds => exact .some holds

theorem rel_eq_none_iff {left : Option α} {right : Option β} (related : Option.Rel R left right) :
    left = none ↔ right = none := by
  cases related with
  | none => simp
  | some holds => simp

end Options

/-! ## What a container holds -/

theorem get?_foldl_merge {key : String} {target : Option (WireField V)} {records : List (Shard V)}
    (among : ∀ record ∈ records, record.get? key = none ∨ record.get? key = target)
    {flat : Shard V} (start : flat.get? key = none ∨ flat.get? key = target)
    (present : flat.get? key = target ∨ ∃ record ∈ records, record.get? key = target) :
    (records.foldl OrderedMap.merge flat).get? key = target := by
  induction records generalizing flat with
  | nil => simpa using present
  | cons record records induction =>
      have read := OrderedMap.get?_merge flat record key
      have others := fun other member => among other (List.mem_cons_of_mem record member)
      rw [List.foldl_cons]
      cases target with
      | none =>
          have absent := among record List.mem_cons_self
          have blank : (flat.merge record).get? key = none := by
            rw [read]
            simp_all
          exact induction others (.inl blank) (.inl blank)
      | some value =>
          obtain here | here := among record List.mem_cons_self
          · rw [here, Option.none_or] at read
            refine induction others (read ▸ start) ?_
            obtain kept | ⟨other, member, holds⟩ := present
            · exact .inl (read.trans kept)
            · obtain rfl | later := List.mem_cons.mp member
              · rw [here] at holds
                cases holds
              · exact .inr ⟨other, later, holds⟩
          · rw [here, Option.some_or] at read
            exact induction others (.inr read) (.inl read)

theorem get?_flatten {shards : Shards V} (placed : Placed shards) (key : String) :
    (flatten shards).get? key = (shards.get (shardIndex key)).get? key := by
  apply get?_foldl_merge
  · intro shard member
    obtain ⟨index, bound, rfl⟩ := List.mem_iff_getElem.mp member
    have inRange : index < mapFieldShardCount := by simpa using bound
    have read : shards.toList[index] = shards.get ⟨index, inRange⟩ := by simp [Vector.get]
    rw [read]
    by_cases home : shardIndex key = ⟨index, inRange⟩
    · exact .inr (by rw [home])
    · exact .inl (placed _ key home)
  · exact .inl (OrderedMap.get?_empty key)
  · refine .inr ⟨shards.get (shardIndex key), ?_, rfl⟩
    simp [Vector.get]

theorem Sharded.get?_map (container : Sharded V) (key : String) :
    container.map.get? key = (container.shards.get (shardIndex key)).get? key := by
  rw [Sharded.map]
  cases cached : container.flattened with
  | none => exact get?_flatten container.placed key
  | some wire => exact container.cached wire cached key

def Distinct : WireField V → Prop
  | .leaf _ => True
  | .map entries => (entries.map Prod.fst).Nodup

theorem get?_copyKeys {wire : WireMap V} (distinct : (wire.map Prod.fst).Nodup) (key : String) :
    (copyKeys .empty wire).get? key = wire.lookup key := by
  have read := OrderedMap.get?_foldl_set_entries Prod.snd distinct OrderedMap.empty key
  simpa [copyKeys] using read

/-! ## One merge into the shards -/

section Objects

variable [DecidableEq V]

omit [DecidableEq V] in
theorem readProperty_congr {left right : WireMap V} {key : String}
    (same : left.lookup key = right.lookup key) :
      readProperty left key = readProperty right key := by
  rw [readProperty, readProperty, same]

/-- The shards so far and the record so far hold the same keys, and both have been copied or
neither has. -/
structure InStep (shards : Shards V) (touched : Touched V) (existing : WireMap V)
    (merged : Option (WireMap V)) : Prop where
  reads : ∀ key, (current shards touched (shardIndex key)).get? key =
    (merged.getD existing).lookup key
  copied : touched.entries = [] ↔ merged = none

omit [DecidableEq V] in
theorem InStep.write {shards : Shards V} {touched : Touched V} {existing : WireMap V}
    {merged : Option (WireMap V)} (inStep : InStep shards touched existing merged) (key : String)
    (value : WireField V) :
    InStep shards
      (touched.set (shardIndex key) ((current shards touched (shardIndex key)).set key value))
      existing (some (setEntry key value (merged.getD existing))) where
  reads := by
    intro other
    rw [current_set, Option.getD_some, lookup_setEntry]
    by_cases home : shardIndex other = shardIndex key
    · rw [if_pos home, OrderedMap.get?_set, ← home, inStep.reads]
    · have apart : other ≠ key := fun same => home (same ▸ rfl)
      rw [if_neg home, if_neg apart, inStep.reads]
  copied := by simp [OrderedMap.set, setEntry_ne_nil]

theorem InStep.mergeShards {shards : Shards V} {existing : WireMap V} (incoming : WireMap V)
    {touched : Touched V} {merged : Option (WireMap V)}
    (inStep : InStep shards touched existing merged) :
    InStep shards (MapField.mergeShards shards touched incoming) existing
      (mergeKeys existing merged incoming) := by
  induction incoming generalizing touched merged with
  | nil => simpa only [MapField.mergeShards, mergeKeys] using inStep
  | cons entry incoming induction =>
      obtain ⟨key, value⟩ := entry
      have read : readProperty (current shards touched (shardIndex key)).entries key =
          readProperty (merged.getD existing) key := readProperty_congr (inStep.reads key)
      simp only [MapField.mergeShards, mergeKeys, read]
      cases changed (readProperty (merged.getD existing) key) value
          (mergeFieldValue (readProperty (merged.getD existing) key) value) with
      | none => exact induction inStep
      | some next => exact induction (inStep.write key next)

theorem nodup_mergeKeys (incoming : WireMap V) {existing : WireMap V} {merged : Option (WireMap V)}
    (distinct : ((merged.getD existing).map Prod.fst).Nodup) :
    (((mergeKeys existing merged incoming).getD existing).map Prod.fst).Nodup := by
  induction incoming generalizing merged with
  | nil => simpa only [mergeKeys] using distinct
  | cons entry incoming induction =>
      obtain ⟨key, value⟩ := entry
      simp only [mergeKeys]
      split
      · exact induction distinct
      · exact induction (nodup_keys_setEntry distinct key _)

/-! ## The values of the merge by reference -/

/-- What stands in a place once a merge has left `next` there. -/
def leaves (previous : Property V) : Option (WireField V) → Property V
  | none => previous
  | some next => .field next

theorem leaves_incoming (previous : Property V) (value : WireField V) :
    leaves previous (changed previous value .incoming) = .field value := by
  rw [changed]
  split
  · next same =>
      cases previous with
      | field held =>
          cases held <;> cases value <;> simp_all [sameObject, leaves]
      | undefined => simp [sameObject] at same
      | inherited => simp [sameObject] at same
  · rfl

mutual

theorem leaves_mergeFieldValue : ∀ (previous : Property V) (value : WireField V),
    leaves previous (changed previous value (mergeFieldValue previous value)) =
      Wire.mergeFieldValue previous value
  | .undefined, value => by rw [mergeFieldValue, leaves_incoming, Wire.mergeFieldValue]
  | .inherited, .leaf incoming => by
      rw [mergeFieldValue, Wire.mergeFieldValue]
      split
      · exact leaves_incoming _ _
      · rfl
  | .inherited, .map _ => by rw [mergeFieldValue, leaves_incoming, Wire.mergeFieldValue]
  | .field (.leaf existing), .leaf incoming => by
      rw [mergeFieldValue, Wire.mergeFieldValue, Wire.mergeLeaf]
      split
      · exact leaves_incoming _ _
      · split
        · rfl
        · split
          · exact leaves_incoming _ _
          · rfl
  | .field (.map existing), .map incoming => by
      have values := getD_mergeKeys existing none incoming
      rw [mergeFieldValue, Wire.mergeFieldValue]
      cases merges : mergeKeys existing none incoming with
      | none =>
          rw [merges] at values
          exact congrArg (fun map => Property.field (.map map)) values
      | some merged =>
          rw [merges] at values
          exact congrArg (fun map => Property.field (.map map)) values
  | .field (.map _), .leaf _ => by rw [mergeFieldValue, leaves_incoming, Wire.mergeFieldValue]
  | .field (.leaf _), .map _ => by rw [mergeFieldValue, leaves_incoming, Wire.mergeFieldValue]

theorem getD_mergeKeys (existing : WireMap V) : ∀ (merged : Option (WireMap V))
    (incoming : WireMap V),
    (mergeKeys existing merged incoming).getD existing =
      Wire.mergeEntries (merged.getD existing) incoming
  | merged, [] => by rw [mergeKeys, Wire.mergeEntries]
  | merged, (key, value) :: rest => by
      have placed := leaves_mergeFieldValue (readProperty (merged.getD existing) key) value
      simp only [mergeKeys, Wire.mergeEntries]
      rw [← placed]
      cases changed (readProperty (merged.getD existing) key) value
          (mergeFieldValue (readProperty (merged.getD existing) key) value) with
      | some next => exact getD_mergeKeys existing _ rest
      | none =>
          -- The value merge writes the value that stands there already.
          simp only [leaves]
          rw [getD_mergeKeys existing merged rest]
          split
          · next held read => rw [setEntry_of_found (lookup_of_readProperty read)]
          · rfl

end

theorem asProperty_mergePlain (existing : Option (WireField V)) (incoming : WireField V) :
    asProperty ((mergePlain existing incoming).or existing) =
      Wire.mergeFieldValue (asProperty existing) incoming := by
  rw [← leaves_mergeFieldValue, mergePlain]
  cases changed (asProperty existing) incoming
    (mergeFieldValue (asProperty existing) incoming) <;> rfl

theorem asProperty_plainRun (incomings : List (WireField V)) (existing : Option (WireField V)) :
    asProperty (plainRun existing incomings) =
      incomings.foldl Wire.mergeFieldValue (asProperty existing) := by
  induction incomings generalizing existing with
  | nil => rfl
  | cons incoming incomings induction =>
      rw [List.foldl_cons, ← asProperty_mergePlain, ← induction]
      rfl

/-! ## One merge of a resident value -/

omit [DecidableEq V] in
/-- The wire value that a resident value keeps, up to the order of its keys. -/
def Represents : Resident V → WireField V → Prop
  | .plain value, wire => value = wire
  | .sharded container, .map wire => ∀ key, container.map.get? key = wire.lookup key
  | .sharded _, .leaf _ => False

omit [DecidableEq V] in
theorem represents_toWire (resident : Resident V) : Represents resident (toWire resident) := by
  cases resident with
  | plain value => rfl
  | sharded container =>
      intro key
      rfl

omit [DecidableEq V] in
theorem Represents.get?_toWire {resident : Resident V} {wire : WireField V}
    (represents : Represents resident wire) (path : List String) :
    (toWire resident).get? path = wire.get? path := by
  cases resident with
  | plain value =>
      cases represents
      rfl
  | sharded container =>
      cases wire with
      | leaf leaf => exact represents.elim
      | map wire =>
          cases path with
          | nil => rfl
          | cons key path =>
              rw [toWire, KeyedTree.get?_map_cons, KeyedTree.get?_map_cons, ← represents key]
              rfl

omit [DecidableEq V] in
theorem entryGet?_toWire {resident : Option (Resident V)} {wire : Option (WireField V)}
    (represents : Option.Rel Represents resident wire) (path : List String) :
    KeyedTree.entryGet? (resident.map toWire) path = (asProperty wire).get? path := by
  cases represents with
  | none => rfl
  | some agrees => exact agrees.get?_toWire path

omit [DecidableEq V] in
theorem represents_adopt {value : WireField V} (distinct : Distinct value) :
    Represents (adoptMapField (.plain value)) value := by
  cases value with
  | leaf leaf => rfl
  | map wire =>
      rw [adoptMapField]
      split
      · exact fun key => get?_copyKeys distinct key
      · rfl

theorem nodup_built {existing : Option (WireField V)} {incoming : WireField V} {map : WireMap V}
    (stored : ∀ value ∈ existing, Distinct value)
    (built : mergeFieldValue (asProperty existing) incoming = .built map) :
    (map.map Prod.fst).Nodup := by
  cases existing with
  | none => simp [asProperty, mergeFieldValue] at built
  | some held =>
      have distinct := stored held rfl
      cases held with
      | leaf leaf =>
          cases incoming with
          | leaf other => grind [asProperty, mergeFieldValue]
          | map other => simp [asProperty, mergeFieldValue] at built
      | map entries =>
          cases incoming with
          | leaf leaf => simp [asProperty, mergeFieldValue] at built
          | map incoming =>
              have keys : (((mergeKeys entries none incoming).getD entries).map Prod.fst).Nodup :=
                nodup_mergeKeys incoming distinct
              simp only [asProperty, mergeFieldValue] at built
              split at built
              · cases built
              · next merges =>
                  cases built
                  rwa [merges] at keys

theorem distinct_mergePlain {existing : Option (WireField V)} {incoming merged : WireField V}
    (stored : ∀ value ∈ existing, Distinct value) (arrived : Distinct incoming)
    (merges : mergePlain existing incoming = some merged) : Distinct merged := by
  rw [mergePlain] at merges
  cases decided : mergeFieldValue (asProperty existing) incoming with
  | existing => simp [decided, changed] at merges
  | incoming =>
      rw [decided, changed] at merges
      split at merges
      · cases merges
      · cases merges
        exact arrived
  | built map =>
      rw [decided, changed] at merges
      cases merges
      exact nodup_built stored decided

theorem mergePlain_map (wire incoming : WireMap V) :
    mergePlain (some (.map wire)) (.map incoming) = (mergeKeys wire none incoming).map .map := by
  rw [mergePlain, asProperty, mergeFieldValue]
  cases mergeKeys wire none incoming <;> rfl

theorem represents_merge {resident : Option (Resident V)} {wire : Option (WireField V)}
    (represents : Option.Rel Represents resident wire)
    (stored : ∀ value ∈ wire, Distinct value) {incoming : WireField V}
    (arrived : Distinct incoming) :
    Option.Rel Represents (mergeResidentFieldValue resident incoming) (mergePlain wire incoming) := by
  have adopts : Option.Rel Represents
      ((mergePlain wire incoming).map fun merged => adoptMapField (.plain merged))
      (mergePlain wire incoming) := by
    cases merges : mergePlain wire incoming with
    | none => exact .none
    | some merged => exact .some (represents_adopt (distinct_mergePlain stored arrived merges))
  cases represents with
  | none => exact adopts
  | @some resident wire represents =>
      cases resident with
      | plain value =>
          cases represents
          exact adopts
      | sharded container =>
          cases wire with
          | leaf leaf => exact represents.elim
          | map wire =>
              cases incoming with
              | leaf leaf => exact .some rfl
              | map incoming =>
                  have start : InStep container.shards .empty wire none :=
                    { reads := fun key => (container.get?_map key).symm.trans (represents key)
                      copied := by simp [OrderedMap.empty] }
                  have inStep := start.mergeShards incoming
                  rw [mergePlain_map, mergeResidentFieldValue, mergeShardedMapField]
                  cases merges : mergeKeys wire none incoming with
                  | none =>
                      rw [if_pos (inStep.copied.mpr merges)]
                      exact .none
                  | some merged =>
                      have copied := fun empty => Option.some_ne_none merged
                        (merges.symm.trans (inStep.copied.mp empty))
                      rw [if_neg copied]
                      refine .some fun key => ?_
                      rw [Sharded.get?_map, get_withTouched, inStep.reads, merges]
                      rfl

/-! ## Any sequence of merges -/

theorem represents_run {resident : Option (Resident V)} {wire : Option (WireField V)}
    (represents : Option.Rel Represents resident wire)
    (stored : ∀ value ∈ wire, Distinct value) {incomings : List (WireField V)}
    (arrived : ∀ incoming ∈ incomings, Distinct incoming) :
    Option.Rel Represents (residentRun resident incomings) (plainRun wire incomings) ∧
      ∀ value ∈ plainRun wire incomings, Distinct value := by
  induction incomings generalizing resident wire with
  | nil => exact ⟨represents, stored⟩
  | cons incoming incomings induction =>
      have first := arrived incoming List.mem_cons_self
      have merged := represents_merge represents stored first
      refine induction (rel_or merged represents) (fun value kept => ?_)
        fun other member => arrived other (List.mem_cons_of_mem _ member)
      obtain merges | ⟨-, held⟩ := Option.or_eq_some_iff.mp (Option.mem_def.mp kept)
      · exact distinct_mergePlain stored first merges
      · exact stored value held

omit [DecidableEq V] in
theorem WellFormed.distinct {value : WireField V} (wellFormed : WellFormed value) :
    Distinct value := by
  cases value with
  | leaf leaf => trivial
  | map entries => exact wellFormed.keyed.1

/-- From any stored value, any sequence of merges leaves a resident value that flattens to the
merge of the plain values, and the next merge returns it by reference exactly when the plain
merge returns the plain value. -/
theorem residentRun_flattens (existing : Option (Resident V)) (incomings : List (WireField V))
    (stored : ∀ value, existing.map toWire = some value → WellFormed value)
    (arrived : ∀ incoming ∈ incomings, WellFormed incoming) :
    (∀ path, KeyedTree.entryGet? ((residentRun existing incomings).map toWire) path =
      (incomings.foldl Wire.mergeFieldValue (asProperty (existing.map toWire))).get? path) ∧
    ∀ next, WellFormed next →
      (mergeResidentFieldValue (residentRun existing incomings) next = none ↔
        mergePlain (plainRun (existing.map toWire) incomings) next = none) := by
  have start : Option.Rel Represents existing (existing.map toWire) := by
    cases existing with
    | none => exact .none
    | some resident => exact .some (represents_toWire resident)
  obtain ⟨represents, distinct⟩ := represents_run start
    (fun value held => WellFormed.distinct (stored value held))
    (fun incoming member => WellFormed.distinct (arrived incoming member))
  constructor
  · intro path
    rw [← asProperty_plainRun]
    exact entryGet?_toWire represents path
  · intro next nextWellFormed
    exact rel_eq_none_iff (represents_merge represents distinct (WellFormed.distinct nextWellFormed))

end Objects

def counted (key : String) (count time : Nat) : WireField Nat :=
  .map [(key, .leaf ⟨count, some "upd_a", some time⟩)]

theorem wellFormed_counted {key : String} (allowed : key ≠ "__proto__") (count time : Nat) :
    WellFormed (counted key count time) where
  keyed := by simp [counted, KeyedTree.Keyed, KeyedTree.entriesKeyed]
  noProto := by
    intro path
    cases path with
    | nil =>
        rw [List.nil_append, counted, KeyedTree.get?_map_cons, lookup_cons_eq, if_neg allowed.symm]
        rfl
    | cons head path =>
        rw [List.cons_append, counted, KeyedTree.get?_map_cons, lookup_cons_eq]
        split
        · cases path <;> rfl
        · rfl

def pantry : Sharded Nat := mapFieldFromWire [("tea", .leaf ⟨1, some "upd_a", some 5⟩)]

theorem residentRun_flattens_pantry :
    KeyedTree.entryGet? ((residentRun (some (.sharded pantry))
      [counted "milk" 2 7, counted "tea" 3 9]).map toWire) ["tea"] =
        some (.leaf ⟨3, some "upd_a", some 9⟩) ∧
    (mergeResidentFieldValue (residentRun (some (.sharded pantry))
        [counted "milk" 2 7, counted "tea" 3 9]) (counted "tea" 4 6) = none ↔
      mergePlain (plainRun (some (counted "tea" 1 5)) [counted "milk" 2 7, counted "tea" 3 9])
        (counted "tea" 4 6) = none) := by
  have flattens := residentRun_flattens (some (.sharded pantry))
    [counted "milk" 2 7, counted "tea" 3 9]
    (by
      intro value held
      cases held
      exact wellFormed_counted (by decide) 1 5)
    (by
      intro incoming member
      obtain rfl | rfl : incoming = counted "milk" 2 7 ∨ incoming = counted "tea" 3 9 := by
        simpa using member
      · exact wellFormed_counted (by decide) 2 7
      · exact wellFormed_counted (by decide) 3 9)
  constructor
  · exact (flattens.1 ["tea"]).trans rfl
  · exact flattens.2 _ (wellFormed_counted (by decide) 4 6)

end Ebb.Storage.MapField
