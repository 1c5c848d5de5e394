import Ebb.Storage.IndexWrites

namespace Ebb.Storage

/-! A read that begins after an append has returned answers from rows that reflect it, in every run
in which calls that change one row keep out of each other's way. -/

/-! ## What a reply reflects -/

def EntityRead.Wants (typeOf : String → String) (read : EntityRead) (id : String) : Prop :=
  match read with
  | .get wanted => id = wanted
  | _ => typeOf id = read.type

section Replies

variable (asString : V → Option String) (seen : String → Option (Entity V))

/-- The rows under a key as pairs of their ids and values. -/
def Links (key : String) (links : List (String × String)) : Prop :=
  ∀ link, link ∈ links ↔ linkAt asString (seen link.1) key = some link.2

def EntityRead.Gives (reply : AdapterReply V) : EntityRead → Prop
  | .get id => reply = .entity (seen id)
  | .query type => ∃ rows, reply = .entities rows ∧
      ∀ row, row ∈ rows ↔ (∃ id, seen id = some row) ∧ row.type = type
  | .queryByRelationship as type targetId => ∃ links, reply = .ids (links.map Prod.snd) ∧
      Links asString seen (reverseIndexKey as type targetId) links
  | .queryByRelationshipSource as type sourceId => ∃ links, reply = .links links ∧
      Links asString seen (forwardIndexKey as type sourceId) links
  | .queryByMembership groupId => ∃ links, reply = .ids (links.map Prod.snd) ∧
      Links asString seen (membershipIndexKey groupId) links
  | .queryByMembershipEntity entityId => ∃ links, reply = .links links ∧
      Links asString seen (forwardMembershipIndexKey entityId) links

end Replies

/-- The reply is given by rows that the log has materialized to, for the entities the read is about
at a version no older than what had returned when it began. -/
def Answer.Reflects (typeOf : String → String) (asString : V → Option String)
    (versions : List (String → Option (Entity V))) (answer : Answer V) : Prop :=
  ∃ seen : String → Option (Entity V),
    (∀ id, ∃ version rows, (answer.read.Wants typeOf id → answer.since id ≤ version) ∧
      versions[version]? = some rows ∧ seen id = rows id) ∧
    answer.read.Gives asString seen answer.reply

/-! ## The runs without a race -/

section Condition

variable (typeOf : String → String) (keyOrder : String → String → Bool)
  (asString : V → Option String)

def ReplayStep.collected : ReplayStep V → Option (Entity V)
  | .checking => none
  | .collecting => none
  | .replacing entity => some entity
  | .putting entity _ => some entity
  | .indexing entity _ => some entity
  | .writing entity _ _ _ => some entity

/-- The index writes that are left of a replay that knows the row it replaces. -/
def ReplayStep.pending : ReplayStep V → Option (List IndexWrite)
  | .putting entity previous => some (indexWrites asString previous entity)
  | .indexing _ writes => some writes
  | .writing _ write _ rest => some (write :: rest)
  | _ => none

/-- The index writes that are left of a replay that has put its row. -/
def ReplayStep.unwritten : ReplayStep V → List IndexWrite
  | .indexing _ writes => writes
  | .writing _ write _ rest => write :: rest
  | _ => []

def ReplayStep.stored : ReplayStep V → Option (Entity V)
  | .indexing entity _ => some entity
  | .writing entity _ _ _ => some entity
  | _ => none

def Task.replay? : Task V → Option (String × ReplayStep V)
  | .reading _ _ (.replaying id replay _) => some (id, replay)
  | _ => none

/-- The entities that an append has still to mark. -/
def Task.unmarked : Task V → List String
  | .marking _ _ updates => updates.map Update.subjectId
  | .flagging _ _ update rest => (update :: rest).map Update.subjectId
  | _ => []

namespace RunningDb

/-- When a call may make its next request. -/
def Allows (state : RunningDb V) : Task V → Prop
  | .appending actions =>
      (∀ update ∈ actions.flatMap Action.updates,
        update.subjectType = typeOf update.subjectId) ∧
      -- A transaction changes rows that its Updates name, and none that a replay has read.
      ∀ id, (state.db.appendAll actions).1.rowOf keyOrder id ≠ state.db.rowOf keyOrder id →
        id ∈ (actions.flatMap Action.updates).map Update.subjectId ∧
          ∀ task ∈ state.tasks, ∀ replay, task.replay? = some (id, replay) →
            replay.collected = none
  | .reading _ _ (.replaying id .collecting _) =>
      -- What the log no longer materializes has no row.
      state.db.rowOf keyOrder id = none → state.db.entities.get? id = none
  | .reading _ _ (.replaying id (.replacing entity) _) =>
      KeysApart asString (state.db.entities.get? id) (some entity) ∧
      -- Replays of one entity that change index records do not overlap.
      ∀ task ∈ state.tasks, ∀ replay, task.replay? = some (id, replay) →
        ∀ writes ∈ replay.pending asString,
          writes = [] ∧ indexWrites asString (state.db.entities.get? id) entity = []
  | .reading _ _ (.replaying _ (.writing _ write rows _) _) =>
      -- The record is still the one that was read.
      state.db.relationships.get? write.entry.key = rows
  | .reading read _ .answering =>
      -- No replay has this record still to write.
      ∀ key ∈ read.key?, ∀ task ∈ state.tasks, ∀ id replay, task.replay? = some (id, replay) →
        ∀ write ∈ replay.unwritten, write.entry.key ≠ key
  | _ => True

def Fits (state : RunningDb V) : DatabaseEvent V → Prop
  | .proceed index => ∀ task ∈ state.tasks[index]?, state.Allows typeOf keyOrder asString task
  | .reopen =>
      -- The process stops with no mark missing and no row ahead of its index records.
      ∀ task ∈ state.tasks, (∀ id ∈ task.unmarked, state.db.isDirty id = true) ∧
        ∀ id replay, task.replay? = some (id, replay) → replay.unwritten = []
  | _ => True

end RunningDb

end Condition

/-! ## What holds of every state -/

theorem ReplayStep.of_unwritten {asString : V → Option String} {replay : ReplayStep V}
    (left : replay.unwritten ≠ []) :
    replay.pending asString = some replay.unwritten ∧ ∃ entity, replay.stored = some entity ∧
      replay.collected = some entity := by
  cases replay with
  | indexing entity writes => exact ⟨rfl, entity, rfl, rfl⟩
  | writing entity write rows rest => exact ⟨rfl, entity, rfl, rfl⟩
  | checking => exact absurd rfl left
  | collecting => exact absurd rfl left
  | replacing => exact absurd rfl left
  | putting => exact absurd rfl left

theorem ReplayStep.collected_of_stored {replay : ReplayStep V} {entity : Entity V}
    (stored : entity ∈ replay.stored) : entity ∈ replay.collected := by
  cases replay with
  | indexing => exact stored
  | writing => exact stored
  | checking => cases stored
  | collecting => cases stored
  | replacing => cases stored
  | putting => cases stored

namespace RunningDb

/-- A call on its way that replays an entity. -/
def Runs (state : RunningDb V) (index : Nat) (id : String) (replay : ReplayStep V) : Prop :=
  (state.tasks[index]?).bind Task.replay? = some (id, replay)

section Invariant

variable (typeOf : String → String) (keyOrder : String → String → Bool)
  (asString : V → Option String)

/-- The stored row is the one of a version no older than `since`. -/
def Held (state : RunningDb V) (since : Nat) (id : String) : Prop :=
  ∃ version rows, since ≤ version ∧ (state.versions keyOrder)[version]? = some rows ∧
    state.db.entities.get? id = rows id

def Covered (state : RunningDb V) (since : Nat) (id : String) : Prop :=
  state.db.isDirty id = true ∨ state.Held keyOrder since id

/-- What an append relies on that has still to mark `updates`. -/
structure Marking (state : RunningDb V) (touched : List String) (version : Nat)
    (updates : List (Update V)) : Prop where
  reached : version ≤ state.earlier.length
  types : ∀ update ∈ updates, update.subjectType = typeOf update.subjectId
  covered : ∀ id ∈ touched, id ∈ updates.map Update.subjectId ∨ state.Covered keyOrder version id

structure Replaying (state : RunningDb V) (id : String) (replay : ReplayStep V) : Prop where
  collected : ∀ entity ∈ replay.collected, state.db.rowOf keyOrder id = some entity
  stored : ∀ entity ∈ replay.stored, state.db.entities.get? id = some entity
  named : ∀ writes ∈ replay.pending asString, ∀ write ∈ writes, write.entry.rowId = id
  links : ∀ writes ∈ replay.pending asString,
    IndexWrite.perform writes (fun key => state.db.relationships.row? key id) =
      linkAt asString replay.collected

/-- What a read relies on: the rows it wants are those of a version that is new enough, or it has
still to replay them. -/
def StepHolds (state : RunningDb V) (read : EntityRead) (since : String → Nat) :
    ReadStep V → Prop
  | .listing => ∀ id, read.Wants typeOf id → typeOf id = read.type
  | .replaying id replay rest =>
      (∀ other, read.Wants typeOf other → other ∈ id :: rest ∨
        state.Held keyOrder (since other) other) ∧
      state.Replaying keyOrder asString id replay
  | .answering => ∀ id, read.Wants typeOf id → state.Held keyOrder (since id) id

def TaskHolds (state : RunningDb V) : Task V → Prop
  | .marking touched version updates => state.Marking typeOf keyOrder touched version updates
  | .flagging touched version update rest =>
      state.Marking typeOf keyOrder touched version (update :: rest)
  | .reading read since step => (∀ id, since id ≤ state.returned id) ∧
      state.StepHolds typeOf keyOrder asString read since step
  | _ => True

structure Invariant (state : RunningDb V) : Prop where
  rows : ∀ id, ∀ row ∈ state.db.entities.get? id, row.id = id ∧ row.type = typeOf id
  logged : ∀ entry ∈ state.db.actions.entries, ∀ update ∈ entry.2.action.updates,
    update.subjectType = typeOf update.subjectId
  marks : ∀ id, ∀ type ∈ state.db.dirty.get? id, type = typeOf id
  returned : ∀ id, state.returned id ≤ state.earlier.length
  held : ∀ id, state.Held keyOrder 0 id
  settled : ∀ id, state.Covered keyOrder (state.returned id) id
  unmarked : ∀ id, state.Covered keyOrder state.earlier.length id ∨
    ∃ (index : Nat) (task : Task V), state.tasks[index]? = some task ∧ id ∈ task.unmarked
  tasks : ∀ (index : Nat) task, state.tasks[index]? = some task →
    state.TaskHolds typeOf keyOrder asString task
  linked : ∀ id, (∀ index replay, state.Runs index id replay → replay.unwritten = []) →
    ∀ key, state.db.relationships.row? key id = linkAt asString (state.db.entities.get? id) key
  alone : ∀ index other id replay otherReplay, index ≠ other → state.Runs index id replay →
    state.Runs other id otherReplay → ∀ writes ∈ replay.pending asString,
      ∀ otherWrites ∈ otherReplay.pending asString, writes = [] ∧ otherWrites = []

end Invariant

section Steps

variable {typeOf : String → String} {keyOrder : String → String → Bool}
  {asString : V → Option String} {before after : RunningDb V}

theorem versions_present (state : RunningDb V) :
    (state.versions keyOrder)[state.earlier.length]? = some (state.db.rowOf keyOrder) :=
  List.getElem?_concat_length

variable {id : String} {replay : ReplayStep V} {task : Task V} {index : Nat} {next : Task V}

theorem Held.of_present {since : Nat} (reached : since ≤ before.earlier.length)
    (present : before.db.entities.get? id = before.db.rowOf keyOrder id) :
    before.Held keyOrder since id :=
  ⟨before.earlier.length, _, reached, versions_present before, present⟩

theorem Held.mono {since sooner : Nat} {id : String} (held : before.Held keyOrder since id)
    (older : sooner ≤ since) : before.Held keyOrder sooner id := by
  rcases held with ⟨version, rows, reached, found, row⟩
  exact ⟨version, rows, Nat.le_trans older reached, found, row⟩

theorem Held.eq_present (held : before.Held keyOrder before.earlier.length id) :
    before.db.entities.get? id = before.db.rowOf keyOrder id := by
  rcases held with ⟨version, rows, reached, found, row⟩
  have within := (List.getElem?_eq_some_iff.mp found).1
  rw [versions, List.length_append] at within
  have last : version = before.earlier.length := Nat.le_antisymm (Nat.le_of_lt_succ within) reached
  rw [last, versions_present] at found
  rw [row, ← Option.some.inj found]

theorem Covered.mono {since sooner : Nat} {id : String} (covered : before.Covered keyOrder since id)
    (older : sooner ≤ since) : before.Covered keyOrder sooner id :=
  covered.imp_right fun held => held.mono older

theorem Covered.held {since : Nat} (covered : before.Covered keyOrder since id)
    (unmarked : before.db.isDirty id ≠ true) : before.Held keyOrder since id :=
  covered.resolve_left unmarked

theorem Invariant.named (invariant : before.Invariant typeOf keyOrder asString) (id : String) :
    ∀ row ∈ before.db.rowOf keyOrder id, row.id = id ∧ row.type = typeOf id := by
  apply replay_named (· = typeOf id)
  intro action member update held subject
  rw [EbbDB.getForEntity, mem_sortBy] at member
  rcases List.mem_map.mp member with ⟨stored, listed, rfl⟩
  rcases List.mem_map.mp (List.mem_filter.mp listed).1 with ⟨entry, inOrder, rfl⟩
  have entryHeld := (EbbDB.perm_inKeyOrder keyOrder before.db.actions).mem_iff.mp inOrder
  rw [invariant.logged entry entryHeld update held, subject]

/-! ### What a later state keeps -/

/-- A state that some call's request leads to. -/
structure Later (keyOrder : String → String → Bool) (before after : RunningDb V) : Prop where
  length : before.earlier.length ≤ after.earlier.length
  returned : ∀ id, before.returned id ≤ after.returned id
  versions : ∀ (version : Nat) rows, (before.versions keyOrder)[version]? = some rows →
    (after.versions keyOrder)[version]? = some rows
  covered : ∀ since id, since ≤ before.earlier.length → before.Covered keyOrder since id →
    after.Covered keyOrder since id
  held : ∀ since id, since ≤ before.earlier.length → before.Held keyOrder since id →
    after.Held keyOrder since id

/-- What a replay relies on is left alone. -/
structure Spares (keyOrder : String → String → Bool) (asString : V → Option String)
    (before after : RunningDb V) (id : String) (replay : ReplayStep V) : Prop where
  collected : ∀ entity ∈ replay.collected, before.db.rowOf keyOrder id = some entity →
    after.db.rowOf keyOrder id = some entity
  stored : ∀ entity ∈ replay.stored, before.db.entities.get? id = some entity →
    after.db.entities.get? id = some entity
  rows : ∀ writes ∈ replay.pending asString, ∀ key,
    after.db.relationships.row? key id = before.db.relationships.row? key id

theorem Replaying.later (replaying : before.Replaying keyOrder asString id replay)
    (spares : Spares keyOrder asString before after id replay) :
    after.Replaying keyOrder asString id replay where
  collected := fun entity held => spares.collected entity held (replaying.collected entity held)
  stored := fun entity held => spares.stored entity held (replaying.stored entity held)
  named := replaying.named
  links := fun writes left => by
    rw [← replaying.links writes left]
    exact congrArg _ (funext fun key => spares.rows writes left key)

theorem Marking.later {touched : List String} {version : Nat} {updates : List (Update V)}
    (marking : before.Marking typeOf keyOrder touched version updates)
    (later : Later keyOrder before after) :
    after.Marking typeOf keyOrder touched version updates where
  reached := Nat.le_trans marking.reached later.length
  types := marking.types
  covered := fun id touched => (marking.covered id touched).imp_right
    (later.covered version id marking.reached)

theorem TaskHolds.later (holds : before.TaskHolds typeOf keyOrder asString task)
    (invariant : before.Invariant typeOf keyOrder asString) (later : Later keyOrder before after)
    (spares : ∀ id replay, task.replay? = some (id, replay) →
      Spares keyOrder asString before after id replay) :
    after.TaskHolds typeOf keyOrder asString task := by
  cases task with
  | appending actions => trivial
  | finished => trivial
  | marking touched version updates => exact Marking.later holds later
  | flagging touched version update rest => exact Marking.later holds later
  | reading read since step =>
      rcases holds with ⟨begun, holds⟩
      have kept : ∀ id, before.Held keyOrder (since id) id → after.Held keyOrder (since id) id :=
        fun id => later.held (since id) id (Nat.le_trans (begun id) (invariant.returned id))
      refine ⟨fun id => Nat.le_trans (begun id) (later.returned id), ?_⟩
      cases step with
      | listing => exact holds
      | answering => exact fun id wanted => kept id (holds id wanted)
      | replaying id replay rest =>
          exact ⟨fun other wanted => (holds.1 other wanted).imp_right (kept other),
            holds.2.later (spares id replay rfl)⟩

/-! ### One request -/

theorem runs_of_set {other : Nat} (tasks : after.tasks = before.tasks.set index next)
    (runs : after.Runs other id replay) :
    (other = index ∧ next.replay? = some (id, replay)) ∨
      (other ≠ index ∧ before.Runs other id replay) := by
  rw [Runs, tasks, List.getElem?_set] at runs
  by_cases same : index = other
  · rw [if_pos same] at runs
    split at runs
    · exact .inl ⟨same.symm, runs⟩
    · cases runs
  · rw [if_neg same] at runs
    exact .inr ⟨Ne.symm same, runs⟩

theorem Runs.set {index other : Nat} {next : Task V} {id : String} {replay : ReplayStep V}
    (runs : before.Runs other id replay) (different : other ≠ index)
    (tasks : after.tasks = before.tasks.set index next) : after.Runs other id replay := by
  rw [Runs, tasks, List.getElem?_set_ne (Ne.symm different)]
  exact runs

theorem runs_set_self (found : before.tasks[index]? = some task)
    (tasks : after.tasks = before.tasks.set index next) (replays : next.replay? = some (id, replay))
    : after.Runs index id replay := by
  rcases List.getElem?_eq_some_iff.mp found with ⟨within, _⟩
  rw [Runs, tasks, List.getElem?_set_self within]
  exact replays

/-- A request of the call at `index`, which goes on as `next`. -/
structure Proceeds (typeOf : String → String) (keyOrder : String → String → Bool)
    (asString : V → Option String) (before after : RunningDb V) (index : Nat)
    (task next : Task V) : Prop where
  found : before.tasks[index]? = some task
  tasks : after.tasks = before.tasks.set index next
  later : Later keyOrder before after
  rows : ∀ id, ∀ row ∈ after.db.entities.get? id, row.id = id ∧ row.type = typeOf id
  logged : ∀ entry ∈ after.db.actions.entries, ∀ update ∈ entry.2.action.updates,
    update.subjectType = typeOf update.subjectId
  marks : ∀ id, ∀ type ∈ after.db.dirty.get? id, type = typeOf id
  returned : ∀ id, after.returned id ≤ after.earlier.length
  settled : ∀ id, after.Covered keyOrder (after.returned id) id
  unmarked : ∀ id, before.Covered keyOrder before.earlier.length id ∨ id ∈ task.unmarked →
    after.Covered keyOrder after.earlier.length id ∨ id ∈ next.unmarked
  holds : after.TaskHolds typeOf keyOrder asString next
  spares : ∀ other id replay, other ≠ index → before.Runs other id replay →
    Spares keyOrder asString before after id replay
  linked : ∀ id, (∀ replay, next.replay? = some (id, replay) → replay.unwritten = []) →
    (∀ other replay, other ≠ index → before.Runs other id replay → replay.unwritten = []) →
      ∀ key, after.db.relationships.row? key id = linkAt asString (after.db.entities.get? id) key
  alone : ∀ other id replay otherReplay, other ≠ index → next.replay? = some (id, replay) →
    before.Runs other id otherReplay → ∀ writes ∈ replay.pending asString,
      ∀ otherWrites ∈ otherReplay.pending asString, writes = [] ∧ otherWrites = []

section

variable (invariant : before.Invariant typeOf keyOrder asString)
include invariant

theorem Invariant.proceeds
    (proceeds : Proceeds typeOf keyOrder asString before after index task next) :
    after.Invariant typeOf keyOrder asString where
  rows := proceeds.rows
  logged := proceeds.logged
  marks := proceeds.marks
  returned := proceeds.returned
  held := fun id => proceeds.later.held 0 id (Nat.zero_le _) (invariant.held id)
  settled := proceeds.settled
  unmarked := by
    intro id
    have own : before.Covered keyOrder before.earlier.length id ∨ id ∈ task.unmarked →
        after.Covered keyOrder after.earlier.length id ∨
          ∃ (index : Nat) (task : Task V), after.tasks[index]? = some task ∧
            id ∈ task.unmarked := by
      intro marked
      rcases proceeds.unmarked id marked with covered | left
      · exact .inl covered
      · rcases List.getElem?_eq_some_iff.mp proceeds.found with ⟨within, _⟩
        exact .inr ⟨index, next, proceeds.tasks ▸ List.getElem?_set_self within, left⟩
    rcases invariant.unmarked id with covered | ⟨other, otherTask, found, left⟩
    · exact own (.inl covered)
    · by_cases same : index = other
      · subst same
        rw [proceeds.found] at found
        cases found
        exact own (.inr left)
      · refine .inr ⟨other, otherTask, ?_, left⟩
        rw [proceeds.tasks, List.getElem?_set_ne same]
        exact found
  tasks := by
    intro other otherTask found
    rw [proceeds.tasks, List.getElem?_set] at found
    by_cases same : index = other
    · rw [if_pos same] at found
      split at found
      · cases found
        exact proceeds.holds
      · cases found
    · rw [if_neg same] at found
      refine TaskHolds.later (invariant.tasks other otherTask found) invariant proceeds.later
        fun id replay replays => ?_
      refine proceeds.spares other id replay (Ne.symm same) ?_
      rw [Runs, found]
      exact replays
  linked := by
    intro id written
    apply proceeds.linked id
    · exact fun replay replays => written index replay
        (runs_set_self proceeds.found proceeds.tasks replays)
    · exact fun other replay different runs => written other replay
        (runs.set different proceeds.tasks)
  alone := by
    intro left right id replay otherReplay different runs otherRuns writes pending otherWrites
      otherPending
    rcases runs_of_set proceeds.tasks runs with ⟨rfl, own⟩ | ⟨beside, earlier⟩
    · rcases runs_of_set proceeds.tasks otherRuns with ⟨rfl, _⟩ | ⟨_, earlier⟩
      · exact absurd rfl different
      · exact proceeds.alone right id replay otherReplay (Ne.symm different) own earlier writes
          pending otherWrites otherPending
    · rcases runs_of_set proceeds.tasks otherRuns with ⟨rfl, own⟩ | ⟨_, otherEarlier⟩
      · exact (proceeds.alone left id otherReplay replay different own earlier otherWrites
          otherPending writes pending).symm
      · exact invariant.alone left right id replay otherReplay different earlier otherEarlier
          writes pending otherWrites otherPending

theorem Invariant.alone_of_same (found : before.tasks[index]? = some task)
    (same : ∀ id replay, next.replay? = some (id, replay) → ∀ writes ∈ replay.pending asString,
      ∃ earlier, task.replay? = some (id, earlier) ∧ earlier.pending asString = some writes)
    (other : Nat) (id : String) (replay otherReplay : ReplayStep V) (different : other ≠ index)
    (replays : next.replay? = some (id, replay)) (runs : before.Runs other id otherReplay) :
    ∀ writes ∈ replay.pending asString, ∀ otherWrites ∈ otherReplay.pending asString,
      writes = [] ∧ otherWrites = [] := by
  intro writes pending otherWrites otherPending
  rcases same id replay replays writes pending with ⟨earlier, ran, left⟩
  have own : before.Runs index id earlier := by
    rw [Runs, found]
    exact ran
  exact invariant.alone index other id earlier otherReplay (Ne.symm different) own runs writes left
    otherWrites otherPending

theorem Invariant.reads (found : before.tasks[index]? = some task) (answers : List (Answer V))
    (unmarked : ∀ id ∈ task.unmarked, before.db.isDirty id = true ∨ id ∈ next.unmarked)
    (holds : before.TaskHolds typeOf keyOrder asString next)
    (written : ∀ id, (∀ replay, next.replay? = some (id, replay) → replay.unwritten = []) →
      ∀ replay, task.replay? = some (id, replay) → replay.unwritten = [])
    (alone : ∀ other id replay otherReplay, other ≠ index → next.replay? = some (id, replay) →
      before.Runs other id otherReplay → ∀ writes ∈ replay.pending asString,
      ∀ otherWrites ∈ otherReplay.pending asString, writes = [] ∧ otherWrites = []) :
    ({ before with tasks := before.tasks.set index next, answers } : RunningDb V).Invariant typeOf
      keyOrder asString := by
  let after : RunningDb V := { before with tasks := before.tasks.set index next, answers }
  have later : Later keyOrder before after := ⟨Nat.le_refl _, fun _ => Nat.le_refl _,
    fun _ _ found => found, fun _ _ _ covered => covered, fun _ _ _ held => held⟩
  have proceeds : Proceeds typeOf keyOrder asString before after index task next := {
    found
    tasks := rfl
    later
    rows := invariant.rows
    logged := invariant.logged
    marks := invariant.marks
    returned := invariant.returned
    settled := invariant.settled
    unmarked := fun id marked => marked.elim .inl fun left => (unmarked id left).imp_left .inl
    holds := holds.later invariant later fun _ _ _ =>
      ⟨fun _ _ row => row, fun _ _ row => row, fun _ _ _ => rfl⟩
    spares := fun _ _ _ _ _ => ⟨fun _ _ row => row, fun _ _ row => row, fun _ _ _ => rfl⟩
    linked := by
      intro id own others
      apply invariant.linked id
      intro other replay runs
      by_cases same : other = index
      · subst same
        rw [Runs, found] at runs
        exact written id own replay runs
      · exact others other replay same runs
    alone }
  exact invariant.proceeds proceeds

end

theorem Runs.exists_mem (runs : before.Runs index id replay) :
    ∃ task ∈ before.tasks, task.replay? = some (id, replay) := by
  rcases Option.bind_eq_some_iff.mp runs with ⟨task, found, replays⟩
  exact ⟨task, List.mem_of_getElem? found, replays⟩

theorem Invariant.replaying (invariant : before.Invariant typeOf keyOrder asString)
    (runs : before.Runs index id replay) :
    before.Replaying keyOrder asString id replay := by
  rcases Option.bind_eq_some_iff.mp runs with ⟨task, found, replays⟩
  have holds := invariant.tasks index task found
  cases task with
  | reading read since step =>
      cases step with
      | replaying id replay rest =>
          cases replays
          exact holds.2.2
      | listing => cases replays
      | answering => cases replays
  | appending => cases replays
  | marking => cases replays
  | flagging => cases replays
  | finished => cases replays

theorem Invariant.linked_of_others (invariant : before.Invariant typeOf keyOrder asString)
    (found : before.tasks[index]? = some task)
    (own : ∀ replay, task.replay? = some (id, replay) → replay.unwritten = [])
    (others : ∀ other replay, other ≠ index → before.Runs other id replay → replay.unwritten = [])
    (key : String) :
    before.db.relationships.row? key id = linkAt asString (before.db.entities.get? id) key := by
  apply invariant.linked id
  intro other replay runs
  by_cases same : other = index
  · subst same
    rw [Runs, found] at runs
    exact own replay runs
  · exact others other replay same runs

end Steps

end RunningDb

end Ebb.Storage
