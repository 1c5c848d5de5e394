import Ebb.Storage.IndexedDBAdapter

namespace Ebb.Storage

/-! Calls of the adapter over IndexedDB that run at once. Each request of the database is atomic,
and between two requests of a call any other call may make its own. -/

inductive IndexWrite where
  | remove (entry : IndexEntry)
  | add (entry : IndexEntry)
deriving DecidableEq

namespace IndexWrite

def entry : IndexWrite → IndexEntry
  | .remove entry => entry
  | .add entry => entry

def writeRows (write : IndexWrite) (index : ReverseIndex)
    (rows : Option (OrderedMap String String)) : ReverseIndex :=
  match write with
  | .remove entry => ReverseIndex.withEntry index entry (ReverseIndex.removeIndexRow rows entry)
  | .add entry =>
      ReverseIndex.withEntry index entry (some (ReverseIndex.addIndexRow rows entry))

def ofDelta (delta : ReverseIndex.IndexDelta) : List IndexWrite :=
  delta.remove.toList.map .remove ++ delta.add.toList.map .add

end IndexWrite

/-- What `updateIndex` writes, reverse then forward. -/
def indexWrites (asString : V → Option String) (previous : Option (Entity V)) (next : Entity V) :
    List IndexWrite :=
  IndexWrite.ofDelta (ReverseIndex.indexDelta (indexEntryFor asString) previous (some next)) ++
    IndexWrite.ofDelta
      (ReverseIndex.indexDelta (forwardIndexEntryFor asString) previous (some next))

/-! ## Calls on their way -/

/-- The next request of a replay, with what it has read. -/
inductive ReplayStep (V : Type) where
  | checking
  | collecting
  | replacing (entity : Entity V)
  | putting (entity : Entity V) (previous : Option (Entity V))
  | indexing (entity : Entity V) (writes : List IndexWrite)
  | writing (entity : Entity V) (write : IndexWrite) (rows : Option (OrderedMap String String))
      (rest : List IndexWrite)

inductive EntityRead where
  | get (id : String)
  | query (type : String)
  | queryByRelationship (as type targetId : String)
  | queryByRelationshipSource (as type sourceId : String)
  | queryByMembership (groupId : String)
  | queryByMembershipEntity (entityId : String)

/-- The next request of a read: the marks of its type, a replay before those that are left, or
what it answers from. -/
inductive ReadStep (V : Type) where
  | listing
  | replaying (id : String) (replay : ReplayStep V) (rest : List String)
  | answering

/-- A call on its way. An append knows the entities it touches and the version of the log that its
transaction made, a read what had returned when it began. -/
inductive Task (V : Type) where
  | appending (actions : List (Action V))
  | marking (touched : List String) (version : Nat) (updates : List (Update V))
  | flagging (touched : List String) (version : Nat) (update : Update V)
      (rest : List (Update V))
  | reading (read : EntityRead) (since : String → Nat) (step : ReadStep V)
  | finished

structure Answer (V : Type) where
  read : EntityRead
  since : String → Nat
  reply : AdapterReply V

structure RunningDb (V : Type) where
  db : EbbDB V
  tasks : List (Task V)
  /-- What the log materialized to before each transaction that wrote it. -/
  earlier : List (String → Option (Entity V))
  /-- By entity, the last version of the log that an append which touches it returned from. -/
  returned : String → Nat
  answers : List (Answer V)

/-! ## Requests -/

def EntityRead.type : EntityRead → String
  | .get _ => ""
  | .query type => type
  | .queryByRelationship .. => relationshipEntityType
  | .queryByRelationshipSource .. => relationshipEntityType
  | .queryByMembership _ => membershipEntityType
  | .queryByMembershipEntity _ => membershipEntityType

def EntityRead.key? : EntityRead → Option String
  | .get _ => none
  | .query _ => none
  | .queryByRelationship as type targetId => some (reverseIndexKey as type targetId)
  | .queryByRelationshipSource as type sourceId => some (forwardIndexKey as type sourceId)
  | .queryByMembership groupId => some (membershipIndexKey groupId)
  | .queryByMembershipEntity entityId => some (forwardMembershipIndexKey entityId)

def EntityRead.firstStep : EntityRead → ReadStep V
  | .get id => .replaying id .checking []
  | _ => .listing

def ReadStep.replayNext : List String → ReadStep V
  | [] => .answering
  | id :: rest => .replaying id .checking rest

variable (keyOrder : String → String → Bool) (asString : V → Option String)

def EbbDB.rowOf (db : EbbDB V) (id : String) : Option (Entity V) :=
  Storage.replay (db.getForEntity keyOrder id) id

def EntityRead.reply (db : EbbDB V) : EntityRead → AdapterReply V
  | .get id => .entity (db.entities.get? id)
  | .query type => .entities (db.entitiesOfType keyOrder type)
  | .queryByRelationship as type targetId =>
      .ids ((db.rowsAt (reverseIndexKey as type targetId)).map Prod.snd)
  | .queryByRelationshipSource as type sourceId =>
      .links (db.rowsAt (forwardIndexKey as type sourceId))
  | .queryByMembership groupId => .ids ((db.rowsAt (membershipIndexKey groupId)).map Prod.snd)
  | .queryByMembershipEntity entityId => .links (db.rowsAt (forwardMembershipIndexKey entityId))

/-- One request of a replay; nothing is left of it behind the last. -/
def ReplayStep.next (db : EbbDB V) (id : String) : ReplayStep V → EbbDB V × Option (ReplayStep V)
  | .checking => (db, if db.isDirty id then some .collecting else none)
  | .collecting => (db, (db.rowOf keyOrder id).map .replacing)
  | .replacing entity => (db, some (.putting entity (db.entities.get? id)))
  | .putting entity previous =>
      ({ db with entities := db.entities.set entity.id entity },
        some (.indexing entity (indexWrites asString previous entity)))
  | .indexing _ [] => (db.clearDirty id, none)
  | .indexing entity (write :: rest) =>
      (db, some (.writing entity write (db.relationships.get? write.entry.key) rest))
  | .writing entity write rows rest =>
      ({ db with relationships := write.writeRows db.relationships rows },
        some (.indexing entity rest))

namespace RunningDb

def create : RunningDb V where
  db := .create
  tasks := []
  earlier := []
  returned := fun _ => 0
  answers := []

def versions (state : RunningDb V) : List (String → Option (Entity V)) :=
  state.earlier ++ [state.db.rowOf keyOrder]

def proceed (state : RunningDb V) (index : Nat) : Task V → Option (RunningDb V)
  | .appending actions => some { state with
      db := (state.db.appendAll actions).1
      tasks := state.tasks.set index (.marking
        ((actions.flatMap Action.updates).map Update.subjectId) (state.earlier.length + 1)
        (actions.flatMap Action.updates))
      earlier := state.versions keyOrder }
  | .marking touched version [] => some { state with
      tasks := state.tasks.set index .finished
      returned := fun id =>
        if id ∈ touched then max (state.returned id) version else state.returned id }
  | .marking touched version (update :: rest) => some { state with
      tasks := state.tasks.set index (if state.db.isDirty update.subjectId
        then .marking touched version rest else .flagging touched version update rest) }
  | .flagging touched version update rest => some { state with
      db := { state.db with dirty := state.db.dirty.set update.subjectId update.subjectType }
      tasks := state.tasks.set index (.marking touched version rest) }
  | .reading read since .listing => some { state with
      tasks := state.tasks.set index
        (.reading read since (.replayNext (state.db.getDirtyForType keyOrder read.type))) }
  | .reading read since (.replaying id replay rest) =>
      let replayed := replay.next keyOrder asString state.db id
      some { state with
        db := replayed.1
        tasks := state.tasks.set index (.reading read since (match replayed.2 with
          | none => .replayNext rest
          | some replay => .replaying id replay rest)) }
  | .reading read since .answering => some { state with
      tasks := state.tasks.set index .finished
      answers := state.answers ++ [{ read, since, reply := read.reply keyOrder state.db }] }
  | .finished => none

end RunningDb

/-- A call begins or makes its next request; or the process stops and the database is opened
again. -/
inductive DatabaseEvent (V : Type) where
  | append (actions : List (Action V))
  | read (read : EntityRead)
  | proceed (index : Nat)
  | reopen

namespace RunningDb

def machine : Machine (RunningDb V) (DatabaseEvent V) where
  initial := create
  step := fun state event =>
    match event with
    | .append actions => some { state with tasks := state.tasks ++ [.appending actions] }
    | .read read => some { state with
        tasks := state.tasks ++ [.reading read state.returned read.firstStep] }
    | .proceed index => (state.tasks[index]?).bind (state.proceed keyOrder asString index)
    | .reopen => some { state with
        tasks := []
        returned := fun _ => state.earlier.length }

end RunningDb

end Ebb.Storage
