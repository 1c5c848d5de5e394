import Ebb.Core.WireFields

namespace Ebb.Storage

open Ebb.Wire

/-! Map fields that stay resident: the merge by the objects it returns, and the container that
spreads the keys of a large map over shards, as `packages/storage/src/internal/map-field.ts`
keeps it. A leaf of `V` stands with the identity of its object, so two leaves are one object
exactly when they are equal. -/

namespace MapField

abbrev WireMap (V : Type) := List (String × WireField V)

variable {V : Type}

/-! ## The merge by reference -/

/-- The object a merge returns: one of the two it was given, or a new map. -/
inductive Merged (V : Type) where
  | existing
  | incoming
  | built (map : WireMap V)

section Objects

variable [DecidableEq V]

/-- `value === previous` for an incoming value. -/
def sameObject : Property V → WireField V → Bool
  | .field (.leaf previous), .leaf value => previous = value
  | _, _ => false

/-- What a merge leaves under a key when it is another object than what stood there. -/
def changed (previous : Property V) (value : WireField V) : Merged V → Option (WireField V)
  | .existing => none
  | .incoming => if sameObject previous value then none else some value
  | .built map => some (.map map)

mutual

def mergeFieldValue : Property V → WireField V → Merged V
  | .undefined, _ => .incoming
  -- An inherited object is no map and has neither a timestamp nor an update id.
  | .inherited, .leaf incoming => if 0 < incoming.time then .incoming else .existing
  | .inherited, .map _ => .incoming
  | .field (.leaf existing), .leaf incoming =>
      if existing.time < incoming.time then .incoming
      else if incoming.time < existing.time then .existing
      else if updateIdGe incoming.updateId existing.updateId then .incoming
      else .existing
  | .field (.map existing), .map incoming =>
      match mergeKeys existing none incoming with
      | none => .existing
      | some merged => .built merged
  | .field (.map _), .leaf _ => .incoming
  | .field (.leaf _), .map _ => .incoming

/-- The loop over the incoming keys. The map is copied at the first key that changes. -/
def mergeKeys (existing : WireMap V) (merged : Option (WireMap V)) :
    WireMap V → Option (WireMap V)
  | [] => merged
  | (key, value) :: rest =>
      let previous := readProperty (merged.getD existing) key
      match changed previous value (mergeFieldValue previous value) with
      | none => mergeKeys existing merged rest
      | some next => mergeKeys existing (some (setEntry key next (merged.getD existing))) rest

end

end Objects

/-! ## Shards -/

def mapFieldFlipPoint : Nat := 500

def mapFieldShardCount : Nat := 64

def fnv1a (input : String) : UInt32 :=
  (codeUnits input).foldl (fun hash unit => (hash ^^^ UInt32.ofNat unit) * 0x01000193) 0x811c9dc5

def shardIndex (key : String) : Fin mapFieldShardCount :=
  ⟨(fnv1a key).toNat % mapFieldShardCount, Nat.mod_lt _ (by decide)⟩

abbrev Shard (V : Type) := OrderedMap String (WireField V)

abbrev Shards (V : Type) := Vector (Shard V) mapFieldShardCount

def emptyShards : Shards V := Vector.replicate mapFieldShardCount .empty

def Placed (shards : Shards V) : Prop :=
  ∀ (index : Fin mapFieldShardCount) (key : String), shardIndex key ≠ index →
    (shards.get index).get? key = none

/-- The container: its shards, and the flat record once a reader has asked for it. -/
structure Sharded (V : Type) where
  shards : Shards V
  flattened : Option (Shard V)
  placed : Placed shards
  cached : ∀ wire, flattened = some wire →
    ∀ key, wire.get? key = (shards.get (shardIndex key)).get? key

/-- A field value as the replica keeps it. -/
inductive Resident (V : Type) where
  | plain (value : WireField V)
  | sharded (container : Sharded V)

/-- `Object.assign` of every shard in turn. -/
def flatten (shards : Shards V) : Shard V :=
  shards.toList.foldl OrderedMap.merge .empty

/-- The getter `map`. -/
def Sharded.map (container : Sharded V) : Shard V :=
  container.flattened.getD (flatten container.shards)

def toWire : Resident V → WireField V
  | .plain value => value
  | .sharded container => .map container.map.entries

def setKey (shards : Shards V) (key : String) (value : WireField V) : Shards V :=
  shards.set (shardIndex key) ((shards.get (shardIndex key)).set key value)

def putKeys (shards : Shards V) (wire : WireMap V) : Shards V :=
  wire.foldl (fun shards entry => setKey shards entry.1 entry.2) shards

def copyKeys (record : Shard V) (wire : WireMap V) : Shard V :=
  wire.foldl (fun record entry => record.set entry.1 entry.2) record

variable (shards : Shards V) (index : Fin mapFieldShardCount)

theorem get_set (written index : Fin mapFieldShardCount) (shard : Shard V) :
    (shards.set written shard).get index = if index = written then shard else shards.get index := by
  have read : ∀ (shards : Shards V) index, shards.get index = shards[index.val] := fun _ _ => rfl
  by_cases same : index = written
  · subst same
    simp [read]
  · have apart : written.val ≠ index.val := fun equal => same (Fin.ext equal.symm)
    simp [read, apart, same]

theorem get?_setKey (key other : String) (value : WireField V) :
    ((setKey shards key value).get (shardIndex other)).get? other =
      if other = key then some value else (shards.get (shardIndex other)).get? other := by
  rw [setKey, get_set]
  by_cases home : shardIndex other = shardIndex key
  · rw [if_pos home, OrderedMap.get?_set, home]
  · have apart : other ≠ key := fun same => home (same ▸ rfl)
    rw [if_neg home, if_neg apart]

theorem placed_setKey {shards : Shards V} (placed : Placed shards) (key : String)
    (value : WireField V) : Placed (setKey shards key value) := by
  intro index other away
  rw [setKey, get_set]
  split
  · next home =>
      subst home
      have apart : other ≠ key := fun same => away (same ▸ rfl)
      rw [OrderedMap.get?_set_of_ne _ apart, placed _ _ away]
  · exact placed index other away

theorem get_emptyShards : (emptyShards : Shards V).get index = .empty := by
  have read : (emptyShards : Shards V).get index = (emptyShards : Shards V)[index.val] := rfl
  rw [read]
  simp [emptyShards]

theorem placed_putKeys {shards : Shards V} (placed : Placed shards) (wire : WireMap V) :
    Placed (putKeys shards wire) := by
  induction wire generalizing shards with
  | nil => exact placed
  | cons entry wire induction => exact induction (placed_setKey placed entry.1 entry.2)

theorem get?_putKeys (wire : WireMap V) {shards : Shards V} {record : Shard V}
    (same : ∀ key, record.get? key = (shards.get (shardIndex key)).get? key) (key : String) :
    (copyKeys record wire).get? key = ((putKeys shards wire).get (shardIndex key)).get? key := by
  induction wire generalizing shards record with
  | nil => exact same key
  | cons entry wire induction =>
      apply induction
      intro key
      rw [OrderedMap.get?_set, get?_setKey, same]

theorem placed_emptyShards : Placed (emptyShards : Shards V) := by
  intro index key _
  rw [get_emptyShards, OrderedMap.get?_empty]

/-- Adopt a flat record. The container keeps a flat copy of its own. -/
def mapFieldFromWire (wire : WireMap V) : Sharded V where
  shards := putKeys emptyShards wire
  flattened := some (copyKeys .empty wire)
  placed := placed_putKeys placed_emptyShards wire
  cached := by
    intro flat isFlat key
    cases isFlat
    refine get?_putKeys wire (fun key => ?_) key
    rw [get_emptyShards]

def adoptMapField : Resident V → Resident V
  | .plain (.map wire) =>
      if mapFieldFlipPoint ≤ wire.length then .sharded (mapFieldFromWire wire)
      else .plain (.map wire)
  | .plain (.leaf leaf) => .plain (.leaf leaf)
  | .sharded container => .sharded container

/-! ## Merging into shards -/

abbrev Touched (V : Type) := OrderedMap (Fin mapFieldShardCount) (Shard V)

def current (shards : Shards V) (touched : Touched V) (index : Fin mapFieldShardCount) : Shard V :=
  (touched.get? index).getD (shards.get index)

/-- `next[index] = shard` for every touched shard. -/
def withTouched (shards : Shards V) (touched : Touched V) : Shards V :=
  touched.entries.foldl (fun next entry => next.set entry.1 entry.2) shards

theorem get_withTouched (touched : Touched V) (index : Fin mapFieldShardCount) :
    (withTouched shards touched).get index = current shards touched index := by
  have general : ∀ (entries : List (Fin mapFieldShardCount × Shard V)) (shards : Shards V),
      (entries.map Prod.fst).Nodup →
      ((entries.foldl (fun next entry => next.set entry.1 entry.2) shards : Shards V).get index) =
        (entries.lookup index).getD (shards.get index) := by
    intro entries
    induction entries with
    | nil =>
        intro shards _
        rfl
    | cons entry entries induction =>
        obtain ⟨written, shard⟩ := entry
        intro shards distinct
        obtain ⟨absent, rest⟩ := List.nodup_cons.mp distinct
        rw [List.foldl_cons, induction _ rest, get_set, lookup_cons_eq]
        split
        · next same =>
            have missing : entries.lookup index = none := by
              rw [← Option.not_isSome_iff_eq_none, lookup_isSome_iff_mem_keys, same]
              exact absent
            simp [missing]
        · rfl
  exact general touched.entries shards touched.nodup

theorem current_set (touched : Touched V) (written index : Fin mapFieldShardCount) (shard : Shard V)
    :
    current shards (touched.set written shard) index =
      if index = written then shard else current shards touched index := by
  rw [current, OrderedMap.get?_set]
  split
  · rfl
  · rfl

section Objects

variable [DecidableEq V]

/-- The loop over the incoming keys. A shard is copied at the first key in it that changes. -/
def mergeShards (shards : Shards V) (touched : Touched V) : WireMap V → Touched V
  | [] => touched
  | (key, value) :: rest =>
      let index := shardIndex key
      let previous := readProperty (current shards touched index).entries key
      match changed previous value (mergeFieldValue previous value) with
      | none => mergeShards shards touched rest
      | some next =>
          mergeShards shards (touched.set index ((current shards touched index).set key next)) rest

theorem placed_mergeShards {shards : Shards V} (incoming : WireMap V) {touched : Touched V}
    (placed : Placed (withTouched shards touched)) :
    Placed (withTouched shards (mergeShards shards touched incoming)) := by
  induction incoming generalizing touched with
  | nil => exact placed
  | cons entry incoming induction =>
      obtain ⟨key, value⟩ := entry
      simp only [mergeShards]
      split
      · exact induction placed
      · next next _ =>
          refine induction fun index other away => ?_
          rw [get_withTouched, current_set]
          split
          · next home =>
              have apart : other ≠ key := by
                rintro rfl
                exact away home.symm
              rw [OrderedMap.get?_set_of_ne _ apart, ← home, ← get_withTouched]
              exact placed index other away
          · rw [← get_withTouched]
            exact placed index other away

/-- None stands for the existing container. -/
def mergeShardedMapField (existing : Sharded V) (incoming : WireMap V) : Option (Sharded V) :=
  let touched := mergeShards existing.shards .empty incoming
  if touched.entries = [] then none
  else some {
    shards := withTouched existing.shards touched
    flattened := none
    placed := placed_mergeShards incoming existing.placed
    cached := by simp }

def asProperty : Option (WireField V) → Property V
  | none => .undefined
  | some value => .field value

/-- The merge of the plain values: what it leaves when it is another object than `existing`. -/
def mergePlain (existing : Option (WireField V)) (incoming : WireField V) : Option (WireField V) :=
  changed (asProperty existing) incoming (mergeFieldValue (asProperty existing) incoming)

/-- None stands for `existing`, returned by reference. -/
def mergeResidentFieldValue (existing : Option (Resident V)) (incoming : WireField V) :
    Option (Resident V) :=
  match existing, incoming with
  | some (.sharded container), .map incoming =>
      (mergeShardedMapField container incoming).map .sharded
  | some (.sharded _), .leaf incoming => some (.plain (.leaf incoming))
  | some (.plain value), incoming =>
      (mergePlain (some value) incoming).map fun merged => adoptMapField (.plain merged)
  | none, incoming => (mergePlain none incoming).map fun merged => adoptMapField (.plain merged)

def residentRun (existing : Option (Resident V)) (incomings : List (WireField V)) :
    Option (Resident V) :=
  incomings.foldl (fun existing incoming => (mergeResidentFieldValue existing incoming).or existing)
    existing

def plainRun (existing : Option (WireField V)) (incomings : List (WireField V)) :
    Option (WireField V) :=
  incomings.foldl (fun existing incoming => (mergePlain existing incoming).or existing) existing

end Objects

end MapField

end Ebb.Storage
