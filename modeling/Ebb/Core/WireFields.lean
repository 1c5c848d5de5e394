import Ebb.Core.FieldPaths
import Ebb.Foundation.KeyedJoin

namespace Ebb.Wire

/-! Field values as they arrive: a leaf may lack its timestamp and its update id,
and the client keeps the keys of a nested value in plain objects. -/

structure WireLeaf (V : Type) where
  value : V
  updateId : Option String
  hlc : Option HLCTimestamp
deriving DecidableEq

abbrev WireField (V : Type) := KeyedTree String (WireLeaf V)

/-- An absent timestamp compares as the empty string, which is zero. -/
def WireLeaf.time (leaf : WireLeaf V) : HLCTimestamp := leaf.hlc.getD 0

/-- What reading a property of a plain object gives. An inherited object carries
neither a timestamp nor an update id, and it is no map. -/
inductive Property (V : Type) where
  | undefined
  | inherited
  | field (value : WireField V)

def Property.get? : Property V → List String → Option (KeyedTree.Node (WireLeaf V))
  | .field value, path => value.get? path
  | .undefined, _ => none
  | .inherited, _ => none

def readProperty (object : List (String × WireField V)) (key : String) : Property V :=
  match object.lookup key with
  | some value => .field value
  | none => if key ∈ objectPrototype then .inherited else .undefined

theorem lookup_of_readProperty {object : List (String × WireField V)} {key : String}
    {value : WireField V} (read : readProperty object key = .field value) :
    object.lookup key = some value := by
  rw [readProperty] at read
  split at read
  · next found =>
      cases read
      exact found
  · split at read <;> cases read

theorem get?_readProperty (object : List (String × WireField V)) (key : String)
    (path : List String) :
    (readProperty object key).get? path = KeyedTree.entryGet? (object.lookup key) path := by
  rw [readProperty]
  split
  · next found => rw [found]; rfl
  · next found =>
      rw [found]
      split <;> rfl

/-- `incoming >= existing` on update ids. A comparison with `undefined` is false. -/
def updateIdGe : Option String → Option String → Bool
  | some incoming, some existing => codeUnitsGe incoming existing
  | _, _ => false

def mergeLeaf (existing incoming : WireLeaf V) : WireLeaf V :=
  if existing.time < incoming.time then incoming
  else if incoming.time < existing.time then existing
  else if updateIdGe incoming.updateId existing.updateId then incoming
  else existing

mutual

def mergeFieldValue : Property V → WireField V → Property V
  | .undefined, incoming => .field incoming
  -- Only a later timestamp wins: at a tie the missing update id decides for `existing`.
  | .inherited, .leaf incoming => if 0 < incoming.time then .field (.leaf incoming) else .inherited
  | .inherited, .map incoming => .field (.map incoming)
  | .field (.leaf existing), .leaf incoming => .field (.leaf (mergeLeaf existing incoming))
  | .field (.map existing), .map incoming => .field (.map (mergeEntries existing incoming))
  | .field (.map _), .leaf incoming => .field (.leaf incoming)
  | .field (.leaf _), .map incoming => .field (.map incoming)

/-- The loop over the keys of `incoming`: a result other than what was read is
written as an own property. -/
def mergeEntries :
    List (String × WireField V) → List (String × WireField V) → List (String × WireField V)
  | existing, [] => existing
  | existing, (key, value) :: rest =>
      match mergeFieldValue (readProperty existing key) value with
      | .field next => mergeEntries (setEntry key next existing) rest
      | _ => mergeEntries existing rest

end

/-- A record read off the wire: its keys are distinct, and the decoder refuses the
key `__proto__`. -/
structure WellFormed (value : WireField V) : Prop where
  keyed : value.Keyed
  noProto : ∀ path, value.get? (path ++ ["__proto__"]) = none

/-! ## The merge as a join -/

/-- A leaf of time zero is not written under an inherited name. -/
def writesNew (key : String) (leaf : WireLeaf V) : Bool :=
  key ∉ objectPrototype || decide (0 < leaf.time)

def merged (existing incoming : WireField V) : WireField V :=
  KeyedTree.join mergeLeaf writesNew existing incoming

mutual

theorem mergeFieldValue_field : ∀ existing incoming : WireField V,
    mergeFieldValue (.field existing) incoming = .field (merged existing incoming)
  | .leaf _, .leaf _ => by rw [mergeFieldValue, merged, KeyedTree.join]
  | .map _, .leaf _ => by rw [mergeFieldValue, merged, KeyedTree.join]
  | .leaf _, .map _ => by rw [mergeFieldValue, merged, KeyedTree.join]
  | .map existing, .map incoming => by
      rw [mergeFieldValue, merged, KeyedTree.join, mergeEntries_eq existing incoming]

theorem mergeEntries_eq : ∀ existing incoming : List (String × WireField V),
    mergeEntries existing incoming = KeyedTree.joinEntries mergeLeaf writesNew existing incoming
  | _, [] => by rw [mergeEntries, KeyedTree.joinEntries]
  | existing, (key, value) :: rest => by
      rw [mergeEntries, KeyedTree.joinEntries]
      cases found : existing.lookup key with
      | some previous =>
          have read : readProperty existing key = .field previous := by
            rw [readProperty, found]
          rw [read, mergeFieldValue_field previous value]
          exact mergeEntries_eq _ rest
      | none =>
          rw [← mergeEntries_eq _ rest]
          by_cases inherited : key ∈ objectPrototype
          · have read : readProperty existing key = .inherited := by
              rw [readProperty, found]
              exact if_pos inherited
            rw [read]
            cases value with
            | map entries => rw [mergeFieldValue]; rfl
            | leaf leaf =>
                rw [mergeFieldValue]
                by_cases later : 0 < leaf.time
                · simp [later, KeyedTree.admitted, writesNew]
                · simp [later, KeyedTree.admitted, writesNew, inherited]
          · have read : readProperty existing key = .undefined := by
              rw [readProperty, found]
              exact if_neg inherited
            rw [read, mergeFieldValue]
            cases value with
            | map entries => rfl
            | leaf leaf => simp [KeyedTree.admitted, writesNew, inherited]

end

end Ebb.Wire
