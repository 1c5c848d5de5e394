import Ebb.Foundation.ByteKeys

namespace Ebb.Server

/-! The group index of the durable log: one row for a group and a GSN, in the byte
order of its key, and the scopes a stored Action carries. -/

namespace RocksDB

/-! ## Keys -/

def encodeGroupActionKey (groupId : List UInt8) (gsn : Nat) : List UInt8 :=
  groupId ++ bigEndian 8 gsn

def decodeGroupActionKey (key : List UInt8) : Option (List UInt8 × Nat) :=
  if 8 ≤ key.length then
    some (key.take (key.length - 8), fromBigEndian (key.drop (key.length - 8)))
  else none

def rangeIterator (keys : List (List UInt8)) (fromKey toKey : List UInt8) : List (List UInt8) :=
  keys.filter fun key => !before key fromKey && before key toKey

theorem decode_encode (groupId : List UInt8) (gsn : Nat) :
    decodeGroupActionKey (encodeGroupActionKey groupId gsn) = some (groupId, gsn % 256 ^ 8) := by
  have length : (groupId ++ bigEndian 8 gsn).length - 8 = groupId.length := by
    rw [List.length_append, length_bigEndian, Nat.add_sub_cancel]
  have long : 8 ≤ (groupId ++ bigEndian 8 gsn).length := by
    rw [List.length_append, length_bigEndian]
    omega
  rw [encodeGroupActionKey, decodeGroupActionKey, if_pos long, length, List.take_left,
    List.drop_left, fromBigEndian_bigEndian]

theorem encode_decode {key groupId : List UInt8} {gsn : Nat}
    (decoded : decodeGroupActionKey key = some (groupId, gsn)) :
    key = encodeGroupActionKey groupId gsn ∧ gsn < 256 ^ 8 := by
  rw [decodeGroupActionKey] at decoded
  split at decoded
  · next long =>
      cases decoded
      have width : (key.drop (key.length - 8)).length = 8 := by
        rw [List.length_drop]
        omega
      constructor
      · have digits := bigEndian_fromBigEndian (key.drop (key.length - 8))
        rw [width] at digits
        rw [encodeGroupActionKey, digits, List.take_append_drop]
      · have bound := fromBigEndian_lt (key.drop (key.length - 8))
        rwa [width] at bound
  · cases decoded

theorem before_encode {groupId : List UInt8} {left right : Nat} (leftFits : left < 256 ^ 8)
    (rightFits : right < 256 ^ 8) :
    before (encodeGroupActionKey groupId left) (encodeGroupActionKey groupId right) =
      decide (left < right) := by
  rw [encodeGroupActionKey, encodeGroupActionKey, before_append,
    before_bigEndian leftFits rightFits]

end RocksDB

/-! ## Stored Actions -/

/-- The value of a row of `cf_actions`. -/
structure StoredAction (U : Type) where
  id : String
  actorId : String
  hlc : Nat
  updates : List U
  updateScopes : Option (List (List (List UInt8)))

/-- A stored Action with the GSN of its key. -/
structure LogAction (U : Type) where
  gsn : Nat
  id : String
  actorId : String
  hlc : Nat
  updates : List U
  updateScopes : Option (List (List (List UInt8)))

namespace ActionFormat

variable {U : Type}

def decode (stored : StoredAction U) (gsn : Nat) : LogAction U where
  gsn
  id := stored.id
  actorId := stored.actorId
  hlc := stored.hlc
  updates := stored.updates
  updateScopes := stored.updateScopes

end ActionFormat

namespace ActionScope

variable {U : Type}

def scopedUpdates (updates : List U) (scopes : List (List (List UInt8))) (groupId : List UInt8) :
    List U :=
  (updates.zip scopes).flatMap fun (update, scope) => if groupId ∈ scope then [update] else []

/-- A record without one scope for each Update is corrupt and returned whole. -/
def updatesForGroup (action : LogAction U) (groupId : List UInt8) : List U :=
  match action.updateScopes with
  | some scopes =>
      if scopes.length = action.updates.length then
        scopedUpdates action.updates scopes groupId
      else action.updates
  | none => action.updates

end ActionScope

/-- The column families a group's readers use, and the resolution frontier. -/
structure GroupStore (U : Type) where
  /-- `cf_actions` by GSN. -/
  actions : List (Nat × StoredAction U)
  /-- The keys of `cf_group_actions`. -/
  groupActions : List (List UInt8)
  sorted : groupActions.Pairwise fun left right => before left right = true
  watermark : Nat

end Ebb.Server
