import Ebb.Foundation.Keyset
import Ebb.Foundation.OrderedMap
import Ebb.Foundation.Term
import Mathlib.Data.Prod.Lex
import Mathlib.Order.WithBot
import Mathlib.Data.String.Basic

namespace Ebb.Sync

/-! The listing of a Group's state in pages: its row, its members, its `entityGroup` rows with
the entities they name, and the relationships of these. -/

namespace GroupListing

/-! ## The read model -/

/-- A row of the entity cache, with the columns that are extracted from its data. -/
structure Row where
  id : String
  type : String
  deleted : Bool
  sourceId : Option String
  actorId : Option String
  entityId : Option String
  groupId : Option String
deriving DecidableEq

structure Mark where
  subjectType : String
  /-- A commit is in flight; only the Writer settles the mark. -/
  pending : Bool
deriving DecidableEq

structure Store where
  entities : OrderedMap String Row
  /-- What the log's Actions make of each entity. -/
  log : OrderedMap String Row
  /-- The entities with an Action that cannot be replayed. -/
  unreadable : List String
  dirty : OrderedMap String Mark
  committedWatermark : Nat

inductive ListError where
  | notMember
  | badCursor
  | invalidLimit
  | materializationFailed
deriving DecidableEq

abbrev Listing (α : Type) := ExceptT ListError (StateM Store) α

inductive Materialized where
  | live (row : Row)
  | notFound
  | failed
deriving DecidableEq

def formatLiveEntity : Option Row → Materialized
  | none => .notFound
  | some row => if row.deleted then .notFound else .live row

def Store.clearSettled (s : Store) (id : String) : Store :=
  match s.dirty.get? id with
  | some mark => if mark.pending then s else { s with dirty := s.dirty.erase id }
  | none => s

def Store.materialize (s : Store) (id : String) : Materialized × Store :=
  match s.log.get? id with
  | none => (formatLiveEntity (s.entities.get? id), s.clearSettled id)
  | some row =>
      if s.entities.get? id = some row then (formatLiveEntity (some row), s.clearSettled id)
      else if id ∈ s.unreadable then (.failed, s)
      else
        (formatLiveEntity (some row), { s with entities := s.entities.set id row }.clearSettled id)

def materialize (id : String) : Listing Materialized :=
  ExceptT.mk fun s => let (result, s) := s.materialize id; (.ok result, s)

/-! ## Queries -/

def Store.rows (s : Store) : List Row := s.entities.entries.map Prod.snd

def Row.filed (type groupId : String) (row : Row) : Bool :=
  row.type = type && row.groupId = some groupId && !row.deleted

/-- `actor_id > ? OR (actor_id = ? AND id > ?)`, where no comparison holds of NULL. -/
def memberAfter (after : Option (Option String × Option String)) (row : Row) : Bool :=
  match after with
  | none => true
  | some (some lastActor, lastId) =>
      match row.actorId with
      | none => false
      | some actor => lastActor < actor || (actor = lastActor && lastId.any fun last => last < row.id)
  | some (none, _) => false

/-- `ORDER BY actor_id, id`, where NULL comes first. -/
def memberKey (row : Row) : WithBot String ×ₗ String := toLex (row.actorId, row.id)

def listGroupMembers (groupId : String) (after : Option (Option String × Option String))
    (limit : Nat) : Listing (List (String × Option String)) := do
  let s ← get
  pure (((Keyset.ordered memberKey
    (s.rows.filter fun row => row.filed "groupMember" groupId && memberAfter after row)).take
      limit).map fun row => (row.id, row.actorId))

def listEntityGroupMemberships (groupId : String) (after : Option String) (limit : Nat) :
    Listing (List (String × Option String)) := do
  let s ← get
  pure (((Keyset.ordered Row.id
    (s.rows.filter fun row => row.filed "entityGroup" groupId &&
      after.all fun last => last < row.id)).take limit).map fun row => (row.id, row.entityId))

/-- The relationships whose source an `entityGroup` row of the window names. The query asks for
no order; here they come by id, source after source. -/
def listPageRelationshipIds (groupId : String) (after : Option String) (windowEnd : String) :
    Listing (List String) := do
  let s ← get
  let page := Keyset.ordered Row.id (s.rows.filter fun row => row.filed "entityGroup" groupId &&
    row.id ≤ windowEnd && after.all fun last => last < row.id)
  let relationships := Keyset.ordered Row.id (s.rows.filter fun row =>
    row.type = "relationship" && !row.deleted)
  pure (page.flatMap fun window => (relationships.filter fun row =>
    row.sourceId.isSome && row.sourceId = window.entityId).map Row.id)

/-! ## Rows -/

instance lawfulOptionString : LawfulBEq (Option String) := inferInstance

def materializeEach : List String → Listing Unit
  | [] => pure ()
  | id :: rest => do
      match ← materialize id with
      | .failed => throw .materializationFailed
      | .live _ | .notFound => materializeEach rest

def materializeAll (ids : List (Option String)) : Listing Unit :=
  materializeEach ids.reduceOption.eraseDups

/-- The live rows among `ids`, by id. -/
def loadLiveRows (ids : List (Option String)) : Listing (String → Option Row) := do
  materializeAll ids
  let s ← get
  pure fun id => if some id ∈ ids then (s.entities.get? id).filter fun row => !row.deleted else none

def typedRow (byId : String → Option Row) (type id : String) : Option Row :=
  (byId id).filter fun row => row.type = type

def fetchGroupRow (groupId : String) : Listing (Option Row) := do
  match ← materialize groupId with
  | .live row => pure (if row.type = "group" then some row else none)
  | .notFound => pure none
  | .failed => throw .materializationFailed

def emitMembers (groupId : String) (taken : List (String × Option String)) : Listing (List Row) := do
  let byId ← loadLiveRows (taken.map fun entry => some entry.1)
  pure ((taken.filterMap fun entry => typedRow byId "groupMember" entry.1).filter fun row =>
    row.groupId = some groupId)

def emitRow (byId : String → Option Row) (emitted : List Row × List String) (id : Option String) :
    List Row × List String :=
  match id with
  | none => emitted
  | some id =>
      if id ∈ emitted.2 then emitted else (emitted.1 ++ (byId id).toList, id :: emitted.2)

def membershipRows (byId : String → Option Row) (taken : List (String × Option String)) : List Row :=
  (taken.foldl (fun emitted entry =>
    let emitted := emitRow byId emitted (some entry.1)
    if entry.2 = some entry.1 then emitted else emitRow byId emitted entry.2) ([], [])).1

def pageSources (taken : List (String × Option String)) (byId : String → Option Row) : List String :=
  (taken.filterMap Prod.snd).filter fun entityId => (byId entityId).isSome

def liveRelationshipRows (ids : List String) (taken : List (String × Option String))
    (byId : String → Option Row) : Listing (List Row) := do
  let ids := ids.eraseDups
  let rowsById ← loadLiveRows (ids.map some)
  pure ((ids.filterMap (typedRow rowsById "relationship")).filter fun row =>
    row.sourceId.any fun source => source ∈ pageSources taken byId)

def pageRelationshipRows (groupId : String) (after : Option String)
    (taken : List (String × Option String)) (byId : String → Option Row) : Listing (List Row) := do
  match taken.getLast? with
  | none => pure []
  | some (windowEnd, _) =>
      let ids ← listPageRelationshipIds groupId after windowEnd
      liveRelationshipRows ids taken byId

/-! ## Pages -/

/-- Where the next page starts; `members none none` is after the group row. -/
inductive CursorKey where
  | members (actorId id : Option String)
  | memberships (id : Option String)
deriving DecidableEq

def afterPair : Option String → Option String → Option (Option String × Option String)
  | none, none => none
  | actorId, id => some (actorId, id)

def membershipAfter : CursorKey → Option String
  | .members _ _ => none
  | .memberships id => id

def nextMembersKey : Option (String × Option String) → CursorKey
  | none => .members none none
  | some (id, actorId) => .members actorId (some id)

def buildPrefixMembers (groupId : String) (limit : Nat)
    (after : Option (Option String × Option String)) (acc : List Row) :
    Listing (List Row × Nat × CursorKey) := do
  if limit = 0 then
    let (actorId, id) := after.getD (none, none)
    pure (acc, 0, .members actorId id)
  else
    let members ← listGroupMembers groupId after (limit + 1)
    let taken := members.take limit
    let rest := members.drop limit
    let remaining := if rest = [] then limit - taken.length else 0
    let rows ← emitMembers groupId taken
    pure (acc ++ rows, remaining, nextMembersKey taken.getLast?)

def buildPrefix (groupId : String) (limit : Nat) :
    Option CursorKey → Listing (List Row × Nat × CursorKey)
  | none => do
      match ← fetchGroupRow groupId with
      | none => buildPrefixMembers groupId limit none []
      | some row => buildPrefixMembers groupId (limit - 1) none [row]
  | some (.members actorId id) => buildPrefixMembers groupId limit (afterPair actorId id) []
  | some (.memberships after) => pure ([], limit, .memberships after)

def nextMembershipKey (rest : List (String × Option String)) (last : Option (String × Option String)) :
    Option CursorKey :=
  match rest, last with
  | _, none => none
  | [], _ => none
  | _, some (membershipId, _) => some (.memberships (some membershipId))

def buildMembershipPage (groupId : String) (limit : Nat) (before : List Row) (after : Option String) :
    Listing (List Row × Option CursorKey × Bool) := do
  let entries ← listEntityGroupMemberships groupId after (limit + 1)
  let taken := entries.take limit
  let rest := entries.drop limit
  let byId ← loadLiveRows (taken.flatMap fun entry => [some entry.1, entry.2])
  let relationshipRows ← pageRelationshipRows groupId after taken byId
  pure (before ++ membershipRows byId taken ++ relationshipRows,
    nextMembershipKey rest taken.getLast?, rest ≠ [])

def rowsAfter (groupId : String) : CursorKey → Listing Bool
  | .members actorId id => do
      let members ← listGroupMembers groupId (afterPair actorId id) 1
      let memberships ← listEntityGroupMemberships groupId none 1
      pure (members ≠ [] ∨ memberships ≠ [])
  | .memberships after => do
      let memberships ← listEntityGroupMemberships groupId after 1
      pure (memberships ≠ [])

def buildPage (groupId : String) (limit : Nat) (key : Option CursorKey) :
    Listing (List Row × Option CursorKey × Bool) := do
  let (start, remaining, nextKey) ← buildPrefix groupId limit key
  if 0 < remaining then buildMembershipPage groupId remaining start (membershipAfter nextKey)
  else if ← rowsAfter groupId nextKey then pure (start, some nextKey, true)
  else pure (start, none, false)

/-! ## Cursors -/

/-- JSON in base64url, by tokens. -/
structure Library (Token : Type) where
  encode : Term → Token
  decode : Token → Option Term

def tokenVersion : Int := 1

def textOrNull : Option String → Term
  | none => .null
  | some text => .string text

def encodeKey : CursorKey → Term
  | .members none none => .list [.integer 0]
  | .members actorId id => .list [.integer 0, textOrNull actorId, textOrNull id]
  | .memberships none => .list [.integer 1]
  | .memberships (some id) => .list [.integer 1, .string id]

def decodeKey : Term → Option CursorKey
  | .list [.integer 0] => some (.members none none)
  | .list [.integer 0, .string actorId, .string id] => some (.members (some actorId) (some id))
  | .list [.integer 1] => some (.memberships none)
  | .list [.integer 1, .string id] => some (.memberships (some id))
  | _ => none

def payload (groupId : String) (watermark : Nat) (key : CursorKey) : Term :=
  .map [("group_id", .string groupId), ("key", encodeKey key), ("v", .integer tokenVersion),
    ("w", .integer watermark)]

variable {Token : Type} (library : Library Token)

def encodeCursor (groupId : String) (watermark : Nat) (key : CursorKey) : Token :=
  library.encode (payload groupId watermark key)

def decodeToken (term : Term) (groupId : String) : Option (Nat × CursorKey) :=
  match term with
  | .map entries =>
      match entries.lookup "v", entries.lookup "group_id", entries.lookup "w", entries.lookup "key" with
      | some (.integer version), some (.string minted), some (.integer watermark), some key =>
          if version = tokenVersion ∧ minted = groupId ∧ 0 ≤ watermark then
            (decodeKey key).map fun key => (watermark.toNat, key)
          else none
      | _, _, _, _ => none
  | _ => none

def resolveCursor (cursor : Option Token) (groupId : String) : Listing (Nat × Option CursorKey) := do
  match cursor with
  | none =>
      let s ← get
      pure (s.committedWatermark, none)
  | some token =>
      match (library.decode token).bind fun term => decodeToken term groupId with
      | some (watermark, key) => pure (watermark, some key)
      | none => throw .badCursor

/-! ## Listing -/

structure Page (Token : Type) where
  groupId : String
  watermark : Nat
  cursor : Option Token
  hasMore : Bool
  entities : List Row

def defaultLimit : Nat := 200

def maxLimit : Int := 1000

def normalizeLimit : Option Int → Listing Nat
  | none => pure defaultLimit
  | some limit => if 0 < limit ∧ limit ≤ maxLimit then pure limit.toNat else throw .invalidLimit

def systemTypes : List String := ["group", "groupMember", "relationship", "entityGroup"]

def dirtyEntityIdsForTypes (types : List String) (s : Store) : List String :=
  (s.dirty.entries.filter fun entry => entry.2.subjectType ∈ types).map Prod.fst

def materializePrefix : Option CursorKey → Listing Unit
  | none => do
      let s ← get
      materializeAll ((dirtyEntityIdsForTypes systemTypes s).map some)
  | some _ => pure ()

def cursorFor (hasMore : Bool) (groupId : String) (watermark : Nat) (nextKey : Option CursorKey) :
    Option Token :=
  if hasMore then nextKey.map (encodeCursor library groupId watermark) else none

/-- `memberOf` is the permission checker's answer. -/
def list (memberOf : String → String → Bool) (groupId actorId : String) (cursor : Option Token)
    (limit : Option Int) : Listing (Page Token) := do
  if !memberOf groupId actorId then throw .notMember
  let limit ← normalizeLimit limit
  let (watermark, key) ← resolveCursor library cursor groupId
  materializePrefix key
  let (entities, nextKey, hasMore) ← buildPage groupId limit key
  let next := cursorFor library hasMore groupId watermark nextKey
  pure { groupId, watermark, cursor := next, hasMore, entities }

end GroupListing

end Ebb.Sync
