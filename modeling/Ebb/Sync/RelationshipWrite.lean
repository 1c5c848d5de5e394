import Mathlib.Data.List.Sort
import Ebb.Foundation.Machine
import Ebb.Foundation.Term
import Ebb.Storage.ReverseIndex

namespace Ebb.Sync

open Storage

/-! The link verbs of `packages/write/src/relationship.ts` and `operations.ts`, the planner's
`resolveRelationship` in `drafts.ts`, and the forward accessors of
`packages/client/src/sync/relationship.ts`. A row's link set is kept twice: as the rows of
type `relationship` that name it, and as a list in the row's own field. -/

inductive SourceCardinality where
  | one
  | many
deriving DecidableEq

/-- A declared relationship. The schema takes no entity under a name of the link and
membership rows. -/
structure DeclaredRelationship where
  source : String
  accessor : String
  type : Option String
  target : String
  sourceCardinality : SourceCardinality
  sourceDeclared : source ≠ relationshipEntityType ∧ source ≠ membershipEntityType
  targetDeclared : target ≠ relationshipEntityType ∧ target ≠ membershipEntityType

def DeclaredRelationship.wireTypeFor (relationship : DeclaredRelationship) : String :=
  relationship.type.getD relationship.source

/-! ## Pointers -/

/-- A handle points where its id does. -/
inductive PointerValue where
  | id (value : String)
  | null
  | undefined
deriving DecidableEq

inductive ManyPointerValue where
  | replace (targets : List PointerValue)
  | change (add remove : List PointerValue)
deriving DecidableEq

structure RelationshipPointer where
  targetId : PointerValue := .undefined
  targetIds : Option ManyPointerValue := none

def normalizePointer (value : PointerValue) (label : String) : Except String (Option String) :=
  match value with
  | .id value =>
      if value = "" then .error (label ++ ": empty string is not a valid pointer id")
      else .ok (some value)
  | .null | .undefined => .ok none

def PointerValue.target? : PointerValue → Option String
  | .id value => some value
  | .null | .undefined => none

def ManyPointerValue.pointers : ManyPointerValue → List PointerValue
  | .replace targets => targets
  | .change add remove => add ++ remove

def normalizeEntry (label : String) (value : PointerValue) : Except String String :=
  match normalizePointer value label with
  | .error message => .error message
  | .ok none => .error (label ++ ": null entries are not allowed in a many-pointer set")
  | .ok (some id) => .ok id

def normalizeManyPointers (value : ManyPointerValue) (label : String) :
    Except String (List String) := do
  let ids ← value.pointers.mapM (normalizeEntry label)
  return ids.eraseDups

def namedTargets (pointers : List PointerValue) : List String :=
  pointers.filterMap PointerValue.target?

def collectManyTargetIds (patch : ManyPointerValue) : List String :=
  (namedTargets patch.pointers).eraseDups

/-! ## Updates -/

/-- What `newId` mints for one Action, and the clock's next value. -/
structure Minted where
  relationshipId : Nat → String
  updateId : Nat → String
  hlc : HLCTimestamp

def buildRelationshipUpdate (relationshipId sourceId : String) (targetId : Option String)
    (field type updateId : String) : Update Term :=
  match targetId with
  | none => {
      id := updateId
      subjectId := relationshipId
      subjectType := relationshipEntityType
      method := .delete
      data := none }
  | some targetId => {
      id := updateId
      subjectId := relationshipId
      subjectType := relationshipEntityType
      method := .put
      data := some [
        ("source_id", .leaf { value := .string sourceId, updateId, hlc := none }),
        ("target_id", .leaf { value := .string targetId, updateId, hlc := none }),
        ("type", .leaf { value := .string type, updateId, hlc := none }),
        ("field", .leaf { value := .string field, updateId, hlc := none })] }

def buildManyEntityUpdate (sourceId sourceEntityName accessor : String) (targetIds : List String)
    (updateId : String) (hlc : HLCTimestamp) : Update Term where
  id := updateId
  subjectId := sourceId
  subjectType := sourceEntityName
  method := .patch
  data := some [
    (accessor, .leaf { value := .list (targetIds.map .string), updateId, hlc := some hlc })]

section Writes

variable (relationship : DeclaredRelationship) (sourceId : String) (minted : Minted)

/-- One `put` a target, each under ids of its own. -/
def makeManyRelationshipUpdates : Nat → List String → List (Update Term)
  | _, [] => []
  | index, target :: rest =>
      buildRelationshipUpdate (minted.relationshipId index) sourceId (some target)
          relationship.accessor relationship.wireTypeFor (minted.updateId (index + 1)) ::
        makeManyRelationshipUpdates (index + 1) rest

def sourceIdRequired : String :=
  "buildRelationshipWrite: sourceId is required for one-cardinality relationship \"" ++
    relationship.accessor ++ "\""

def entityUpdateRequired : String :=
  "buildRelationshipWrite: entityUpdate is required for many-cardinality relationship \"" ++
    relationship.accessor ++ "\""

/-- The pointers of a patch, without the empty ones. -/
def patchedTargets (label : String) (pointers : List PointerValue) :
    Except String (List String) := do
  let ids ← pointers.mapM fun pointer => normalizePointer pointer label
  return ids.filterMap id

def manyTargets (targetIds : ManyPointerValue) : Except String (List String) :=
  match targetIds with
  | .replace _ =>
      normalizeManyPointers targetIds ("targetIds for \"" ++ relationship.accessor ++ "\"")
  | .change add remove => do
      let added ← patchedTargets ("targetIds.add for \"" ++ relationship.accessor ++ "\"") add
      let removed ←
        patchedTargets ("targetIds.remove for \"" ++ relationship.accessor ++ "\"") remove
      return added ++ removed

def writeRelationship (pointer : RelationshipPointer) (relationshipSubjectId : Option String) :
    Except String (List (Update Term)) :=
  match relationship.sourceCardinality with
  | .one => do
      if sourceId = "" then throw (sourceIdRequired relationship)
      let targetId ← normalizePointer pointer.targetId
        ("targetId for \"" ++ relationship.accessor ++ "\"")
      return [buildRelationshipUpdate (relationshipSubjectId.getD (minted.relationshipId 0))
        sourceId targetId relationship.accessor relationship.wireTypeFor (minted.updateId 0)]
  | .many =>
      match pointer.targetIds with
      | none => .error (entityUpdateRequired relationship)
      | some targetIds => do
          let targets ← manyTargets relationship targetIds
          return buildManyEntityUpdate sourceId relationship.source relationship.accessor
              (collectManyTargetIds targetIds) (minted.updateId 0) minted.hlc ::
            makeManyRelationshipUpdates relationship sourceId minted 0 targets

structure RelationshipLink where
  relationshipId : String
  targetId : String
deriving DecidableEq

inductive UnlinkTarget where
  | notApplicable
  | unlinked
  | existing (relationshipId : String)

def resolveUnlinkTarget (pointer : RelationshipPointer) (link : Option RelationshipLink) :
    UnlinkTarget :=
  if pointer.targetId ≠ .null ∨ pointer.targetIds ≠ none then .notApplicable
  else match relationship.sourceCardinality, link with
    | .many, _ => .notApplicable
    | .one, none => .unlinked
    | .one, some link => .existing link.relationshipId

def resolveRelationship (pointer : RelationshipPointer) (link : Option RelationshipLink) :
    Except String (List (Update Term)) :=
  match resolveUnlinkTarget relationship pointer link with
  | .unlinked => .ok []
  | .notApplicable => writeRelationship relationship sourceId minted pointer none
  | .existing relationshipId =>
      writeRelationship relationship sourceId minted pointer (some relationshipId)

end Writes

/-! ## The local store -/

def asString : Term → Option String
  | .string value => some value
  | _ => none

structure LinkStore where
  rows : OrderedMap String (Entity Term)
  forwardIndex : ReverseIndex

namespace LinkStore

def write (store : LinkStore) (hlc : HLCTimestamp) (gsn : Nat) (update : Update Term) :
    LinkStore :=
  let previous := store.rows.get? update.subjectId
  let next := applyUpdate previous update gsn hlc
  { rows := match next with
      | none => store.rows
      | some row => store.rows.set update.subjectId row
    forwardIndex := ReverseIndex.applyIndexDelta store.forwardIndex
      (ReverseIndex.indexDelta (forwardIndexEntryFor asString) previous next) }

def writeAll (store : LinkStore) (hlc : HLCTimestamp) (gsn : Nat)
    (updates : List (Update Term)) : LinkStore :=
  updates.foldl (fun store update => store.write hlc gsn update) store

def readLocalEntity (store : LinkStore) (id : String) : Option (Entity Term) :=
  (store.rows.get? id).filter fun row => row.deletedHlc.isNone

end LinkStore

/-- The order `localeCompare` puts ids in. -/
structure IdCollation where
  localeCompare : String → String → Ordering
  oriented : ∀ left right, localeCompare right left = (localeCompare left right).swap

/-- `left` sorts before `right` or level with it: by value, then by row id. -/
def IdCollation.indexRowLe (collation : IdCollation) (left right : String × String) : Prop :=
  if left.2 = right.2 then collation.localeCompare left.1 right.1 ≠ .gt
  else collation.localeCompare left.2 right.2 ≠ .gt

instance (collation : IdCollation) : DecidableRel collation.indexRowLe := fun _ _ => by
  unfold IdCollation.indexRowLe
  infer_instance

def liveIndexRows (collation : IdCollation) (rows : Option (OrderedMap String String)) :
    List (String × String) :=
  (rows.getD .empty).entries.insertionSort collation.indexRowLe

/-! ## Accessors -/

inductive ForwardOne where
  | undefined
  | null
  | row (entity : Entity Term)

section Accessors

variable (collation : IdCollation) (relationship : DeclaredRelationship) (sourceId : String)

/-- The key the links of the source are filed under. -/
def linksKey : String := forwardIndexKey relationship.accessor relationship.wireTypeFor sourceId

def forwardLinks (store : LinkStore) : List RelationshipLink :=
  (liveIndexRows collation (store.forwardIndex.get? (linksKey relationship sourceId))).map
    fun row => { relationshipId := row.1, targetId := row.2 }

def loadTarget (store : LinkStore) (targetId : String) : ForwardOne :=
  match store.readLocalEntity targetId with
  | none => .undefined
  | some row => .row row

def forwardOne (store : LinkStore) : ForwardOne :=
  match store.readLocalEntity sourceId with
  | none => .undefined
  | some source =>
      if source.type ≠ relationship.source then .undefined
      else match forwardLinks collation relationship sourceId store with
        | [] => .null
        | first :: _ => loadTarget store first.targetId

def loadRows (store : LinkStore) (ids : List String) (type : String) : List (Entity Term) :=
  (ids.filterMap store.readLocalEntity).filter fun row => row.type = type

def forwardMany (store : LinkStore) : List (Entity Term) :=
  match store.readLocalEntity sourceId with
  | none => []
  | some source =>
      if source.type ≠ relationship.source then []
      else loadRows store
        ((forwardLinks collation relationship sourceId store).map
          RelationshipLink.targetId).eraseDups relationship.target

end Accessors

/-! ## Runs -/

inductive LinkVerb where
  | link (target : PointerValue)
  | unlink
  | setLinks (patch : ManyPointerValue)
deriving DecidableEq

def LinkVerb.pointer : LinkVerb → RelationshipPointer
  | .link target => { targetId := target }
  | .unlink => { targetId := .null }
  | .setLinks patch => { targetIds := some patch }

/-- A verb with what its commit draws from the client: minted ids, a clock reading and the
position the Action is applied at. -/
structure LinkEvent where
  verb : LinkVerb
  minted : Minted
  gsn : Nat

/-- The store, the targets the verbs so far specify and whether one of them has written the
source's list. -/
structure LinkSession where
  store : LinkStore
  specified : List String
  written : Bool

def LinkVerb.specify (previous : List String) : LinkVerb → List String
  | .link target => target.target?.toList
  | .unlink => []
  | .setLinks (.replace targets) => namedTargets targets
  | .setLinks (.change add remove) =>
      (previous ++ namedTargets add).filter fun target => target ∉ namedTargets remove

def LinkVerb.rowsMinted : LinkVerb → Nat
  | .link _ | .unlink => 1
  | .setLinks patch => patch.pointers.length + 1

def storedTime (row : Entity Term) (accessor : String) : HLCTimestamp :=
  match row.fields.lookup accessor with
  | some (.leaf leaf) => leaf.time
  | _ => 0

section Runs

variable (collation : IdCollation) (relationship : DeclaredRelationship) (sourceId : String)

/-- `newId` repeats no id and names no row that is there; the clock is past every leaf. -/
def LinkEvent.Possible (event : LinkEvent) (store : LinkStore) : Prop :=
  (∀ index < event.verb.rowsMinted,
    store.rows.get? (event.minted.relationshipId index) = none ∧
      ∀ other < event.verb.rowsMinted,
        event.minted.relationshipId index = event.minted.relationshipId other → index = other) ∧
  ∀ row ∈ store.rows.get? sourceId, storedTime row relationship.accessor < event.minted.hlc

instance (event : LinkEvent) (store : LinkStore) :
    Decidable (event.Possible relationship sourceId store) := by
  unfold LinkEvent.Possible
  infer_instance

/-- One verb, committed and applied; a refused one leaves everything as it is. -/
def LinkSession.commit (session : LinkSession) (event : LinkEvent) : LinkSession :=
  let links := forwardLinks collation relationship sourceId session.store
  match resolveRelationship relationship sourceId event.minted event.verb.pointer links.head? with
  | .error _ => session
  | .ok updates => {
      store := session.store.writeAll event.minted.hlc event.gsn updates
      specified := event.verb.specify session.specified
      written := session.written || updates.any fun update => update.method == .patch }

def linkMachine (start : LinkSession) : Machine LinkSession LinkEvent where
  initial := start
  step session event :=
    if event.Possible relationship sourceId session.store then
      some (session.commit collation relationship sourceId event)
    else none

end Runs

end Ebb.Sync
