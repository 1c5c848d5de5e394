import Ebb.Storage.DatabaseReads

namespace Ebb.Storage.RunningDb

/-! The invariant of calls that run at once, request by request, and what it says of whole runs. -/

variable {typeOf : String → String} {keyOrder : String → String → Bool}
  {asString : V → Option String} {before after : RunningDb V}

section

variable (invariant : before.Invariant typeOf keyOrder asString)
include invariant

/-! ## Appends -/

theorem Invariant.appended {index : Nat} {actions : List (Action V)}
    (found : before.tasks[index]? = some (.appending actions))
    (allows : before.Allows typeOf keyOrder asString (.appending actions)) :
    ({ before with
        db := (before.db.appendAll actions).1
        tasks := before.tasks.set index (.marking
          ((actions.flatMap Action.updates).map Update.subjectId) (before.earlier.length + 1)
          (actions.flatMap Action.updates))
        earlier := before.versions keyOrder } : RunningDb V).Invariant typeOf keyOrder
          asString := by
  let after : RunningDb V := { before with
    db := (before.db.appendAll actions).1
    tasks := before.tasks.set index (.marking
      ((actions.flatMap Action.updates).map Update.subjectId) (before.earlier.length + 1)
      (actions.flatMap Action.updates))
    earlier := before.versions keyOrder }
  rcases before.db.appendAll_beside actions with ⟨entities, dirty, relationships⟩
  have length : after.earlier.length = before.earlier.length + 1 := List.length_append
  have versions : ∀ (version : Nat) rows, (before.versions keyOrder)[version]? = some rows →
      (after.versions keyOrder)[version]? = some rows := by
    intro version rows found
    rw [← found]
    exact List.getElem?_append_left (List.getElem?_eq_some_iff.mp found).1
  have held : ∀ since id, before.Held keyOrder since id → after.Held keyOrder since id := by
    rintro since id ⟨version, rows, reached, found, row⟩
    exact ⟨version, rows, reached, versions version rows found, (by rw [entities]; exact row)⟩
  have covered : ∀ since id, before.Covered keyOrder since id →
      after.Covered keyOrder since id := fun since id covered =>
    covered.imp (fun marked => by rw [EbbDB.isDirty, dirty]; exact marked) (held since id)
  have later : Later keyOrder before after := {
    length := length ▸ Nat.le_succ _
    returned := fun _ => Nat.le_refl _
    versions
    covered := fun since id _ => covered since id
    held := fun since id _ => held since id }
  -- An entity that the page does not name keeps its row.
  have kept : ∀ id, id ∉ (actions.flatMap Action.updates).map Update.subjectId →
      after.db.rowOf keyOrder id = before.db.rowOf keyOrder id := by
    intro id unnamed
    by_contra changed
    exact unnamed (allows.2 id changed).1
  have proceeds : Proceeds typeOf keyOrder asString before after index (.appending actions)
      (.marking ((actions.flatMap Action.updates).map Update.subjectId)
        (before.earlier.length + 1) (actions.flatMap Action.updates)) := {
    found
    tasks := rfl
    later
    rows := by
      rw [entities]
      exact invariant.rows
    logged := by
      intro entry member update listed
      rcases EbbDB.mem_updates_appendAll member listed with ⟨earlier, held, old⟩ | new
      · exact invariant.logged earlier held update old
      · exact allows.1 update new
    marks := by
      rw [dirty]
      exact invariant.marks
    returned := fun id => Nat.le_trans (invariant.returned id) later.length
    settled := fun id => covered _ id (invariant.settled id)
    unmarked := by
      intro id marked
      by_cases named : id ∈ (actions.flatMap Action.updates).map Update.subjectId
      · exact .inr named
      · rcases marked.resolve_right List.not_mem_nil with marked | present
        · exact .inl (.inl (by rw [EbbDB.isDirty, dirty]; exact marked))
        · refine .inl (.inr (Held.of_present (Nat.le_refl _) ?_))
          rw [entities, kept id named]
          exact present.eq_present
    holds := by
      refine ⟨Nat.le_of_eq length.symm, allows.1, fun id touched => .inl touched⟩
    spares := by
      intro other id replay different runs
      refine ⟨fun entity collected row => ?_, fun entity _ row => ?_, fun _ _ key => ?_⟩
      · rw [← row]
        by_contra changed
        rcases runs.exists_mem with ⟨task, member, replays⟩
        have unread := (allows.2 id changed).2 task member replay replays
        rw [unread] at collected
        cases collected
      · rw [entities]
        exact row
      · rw [relationships]
    linked := by
      intro id _ others key
      rw [relationships, entities]
      exact invariant.linked_of_others found nofun others key
    alone := by rintro _ _ _ _ _ ⟨⟩ }
  exact invariant.proceeds proceeds

theorem Invariant.asked {index : Nat} {touched : List String} {version : Nat} {update : Update V}
    {rest : List (Update V)}
    (found : before.tasks[index]? = some (.marking touched version (update :: rest))) :
    ({ before with
        tasks := before.tasks.set index (if before.db.isDirty update.subjectId
          then .marking touched version rest else .flagging touched version update rest) } :
      RunningDb V).Invariant typeOf keyOrder asString := by
  have marking : before.Marking typeOf keyOrder touched version (update :: rest) :=
    invariant.tasks index _ found
  by_cases marked : before.db.isDirty update.subjectId = true
  · rw [if_pos marked]
    refine invariant.reads found before.answers ?_ ?_ nofun ?_
    · intro id left
      rcases List.mem_cons.mp left with rfl | later
      · exact .inl marked
      · exact .inr later
    · refine ⟨marking.reached, (List.forall_mem_cons.mp marking.types).2, fun id touched => ?_⟩
      rcases marking.covered id touched with left | covered
      · rcases List.mem_cons.mp left with rfl | later
        · exact .inr (.inl marked)
        · exact .inl later
      · exact .inr covered
    · rintro _ _ _ _ _ ⟨⟩
  · rw [if_neg marked]
    refine invariant.reads found before.answers (fun id left => .inr left) marking nofun ?_
    rintro _ _ _ _ _ ⟨⟩

theorem Invariant.flagged {index : Nat} {touched : List String} {version : Nat} {update : Update V}
    {rest : List (Update V)}
    (found : before.tasks[index]? = some (.flagging touched version update rest)) :
    ({ before with
        db := { before.db with
          dirty := before.db.dirty.set update.subjectId update.subjectType }
        tasks := before.tasks.set index (.marking touched version rest) } :
      RunningDb V).Invariant typeOf keyOrder asString := by
  have marking : before.Marking typeOf keyOrder touched version (update :: rest) :=
    invariant.tasks index _ found
  let after : RunningDb V := { before with
    db := { before.db with dirty := before.db.dirty.set update.subjectId update.subjectType }
    tasks := before.tasks.set index (.marking touched version rest) }
  have marked : after.db.isDirty update.subjectId = true := by
    simp [after, EbbDB.isDirty]
  have covered : ∀ since id, before.Covered keyOrder since id →
      after.Covered keyOrder since id := by
    intro since id covered
    refine covered.imp_left fun dirty => ?_
    rw [EbbDB.isDirty, OrderedMap.get?_set]
    split
    · rfl
    · exact dirty
  have later : Later keyOrder before after := {
    length := Nat.le_refl _
    returned := fun _ => Nat.le_refl _
    versions := fun _ _ found => found
    covered := fun since id _ => covered since id
    held := fun _ _ _ held => held }
  have left : ∀ id ∈ (update :: rest).map Update.subjectId, after.db.isDirty id = true ∨
      id ∈ rest.map Update.subjectId := by
    intro id left
    rcases List.mem_cons.mp left with rfl | behind
    · exact .inl marked
    · exact .inr behind
  have proceeds : Proceeds typeOf keyOrder asString before after index
      (.flagging touched version update rest) (.marking touched version rest) := {
    found
    tasks := rfl
    later
    rows := invariant.rows
    logged := invariant.logged
    marks := by
      intro id type held
      rw [OrderedMap.get?_set] at held
      split at held
      · next same =>
          cases held
          rw [same]
          exact marking.types update List.mem_cons_self
      · exact invariant.marks id type held
    returned := invariant.returned
    settled := fun id => covered _ id (invariant.settled id)
    unmarked := fun id marked => marked.elim (fun present => .inl (covered _ id present))
      fun unmarked => (left id unmarked).imp_left .inl
    holds := by
      refine ⟨marking.reached, (List.forall_mem_cons.mp marking.types).2, fun id touched => ?_⟩
      rcases marking.covered id touched with unmarked | present
      · exact (left id unmarked).symm.imp_right .inl
      · exact .inr (covered version id present)
    spares := fun _ _ _ _ _ => ⟨fun _ _ row => row, fun _ _ row => row, fun _ _ _ => rfl⟩
    linked := fun id _ others => invariant.linked_of_others found nofun others
    alone := by rintro _ _ _ _ _ ⟨⟩ }
  exact invariant.proceeds proceeds

end

theorem Invariant.marked {index : Nat} {touched : List String} {version : Nat}
    (invariant : before.Invariant typeOf keyOrder asString)
    (found : before.tasks[index]? = some (.marking touched version [])) :
    ({ before with
        tasks := before.tasks.set index .finished
        returned := fun id =>
          if id ∈ touched then max (before.returned id) version else before.returned id } :
      RunningDb V).Invariant typeOf keyOrder asString := by
  have marking : before.Marking typeOf keyOrder touched version [] :=
    invariant.tasks index _ found
  let after : RunningDb V := { before with
    tasks := before.tasks.set index .finished
    returned := fun id =>
      if id ∈ touched then max (before.returned id) version else before.returned id }
  have later : Later keyOrder before after := {
    length := Nat.le_refl _
    returned := by
      intro id
      show before.returned id ≤ if id ∈ touched then _ else _
      split
      · exact Nat.le_max_left _ _
      · exact Nat.le_refl _
    versions := fun _ _ found => found
    covered := fun _ _ _ covered => covered
    held := fun _ _ _ held => held }
  have proceeds : Proceeds typeOf keyOrder asString before after index
      (.marking touched version []) .finished := {
    found
    tasks := rfl
    later
    rows := invariant.rows
    logged := invariant.logged
    marks := invariant.marks
    returned := by
      intro id
      show (if id ∈ touched then _ else _) ≤ before.earlier.length
      split
      · exact Nat.max_le.mpr ⟨invariant.returned id, marking.reached⟩
      · exact invariant.returned id
    settled := by
      intro id
      show before.Covered keyOrder (if id ∈ touched then _ else _) id
      split
      · next touched =>
          rcases Nat.le_total (before.returned id) version with newer | older
          · rw [Nat.max_eq_right newer]
            exact (marking.covered id touched).resolve_left List.not_mem_nil
          · rw [Nat.max_eq_left older]
            exact invariant.settled id
      · exact invariant.settled id
    unmarked := fun id marked => .inl (marked.resolve_right List.not_mem_nil)
    holds := trivial
    spares := fun _ _ _ _ _ => ⟨fun _ _ row => row, fun _ _ row => row, fun _ _ _ => rfl⟩
    linked := fun id _ others => invariant.linked_of_others found nofun others
    alone := by rintro _ _ _ _ _ ⟨⟩ }
  exact invariant.proceeds proceeds

variable {ids : List String} {task : Task V} {entity : Entity V}

/-! ## Reads -/

theorem stepHolds_replayNext {read : EntityRead} {since : String → Nat}
    (wanted : ∀ id, read.Wants typeOf id → id ∈ ids ∨ before.Held keyOrder (since id) id) :
    before.StepHolds typeOf keyOrder asString read since (.replayNext ids) := by
  cases ids with
  | nil => exact fun id wants => (wanted id wants).resolve_left List.not_mem_nil
  | cons id rest => exact ⟨wanted, nofun, nofun, nofun, nofun⟩

theorem replay?_replayNext {read : EntityRead} {since : String → Nat} {id : String}
    {replay : ReplayStep V}
    (replays : Task.replay? (.reading read since (.replayNext ids)) = some (id, replay)) :
    replay = .checking := by
  cases ids with
  | nil => cases replays
  | cons head rest =>
      cases replays
      rfl

variable {index : Nat} {read : EntityRead} {since : String → Nat} {id : String}
  {rest : List String}

section

variable (invariant : before.Invariant typeOf keyOrder asString)
include invariant

theorem Invariant.passes (found : before.tasks[index]? = some task) (unmarked : task.unmarked = [])
    (written : ∀ id replay, task.replay? = some (id, replay) → replay.unwritten = [])
    (begun : ∀ id, since id ≤ before.returned id)
    (wanted : ∀ id, read.Wants typeOf id → id ∈ ids ∨ before.Held keyOrder (since id) id) :
    ({ before with
        tasks := before.tasks.set index (.reading read since (.replayNext ids)) } :
      RunningDb V).Invariant typeOf keyOrder asString := by
  refine invariant.reads found before.answers ?_ ⟨begun, stepHolds_replayNext wanted⟩
    (fun id _ replay replays => written id replay replays) ?_
  · rw [unmarked]
    exact nofun
  · refine invariant.alone_of_same found fun id replay replays writes pending => ?_
    rw [replay?_replayNext replays] at pending
    cases pending

theorem Invariant.listed (found : before.tasks[index]? = some (.reading read since .listing)) :
    ({ before with
        tasks := before.tasks.set index (.reading read since
          (.replayNext (before.db.getDirtyForType keyOrder read.type))) } :
      RunningDb V).Invariant typeOf keyOrder asString := by
  rcases invariant.tasks index _ found with ⟨begun, typed⟩
  refine invariant.passes found rfl nofun begun fun id wants => ?_
  by_cases marked : before.db.isDirty id = true
  · rcases Option.isSome_iff_exists.mp marked with ⟨type, held⟩
    refine .inl ((EbbDB.mem_getDirtyForType keyOrder).mpr ?_)
    rw [← typed id wants, ← invariant.marks id type held]
    exact held
  · exact .inr (((invariant.settled id).mono (begun id)).held marked)

theorem Invariant.unneeded
    (found : before.tasks[index]? = some (.reading read since (.replaying id .checking rest)))
    (unmarked : before.db.isDirty id ≠ true) :
    ({ before with
        tasks := before.tasks.set index (.reading read since (.replayNext rest)) } :
      RunningDb V).Invariant typeOf keyOrder asString := by
  rcases invariant.tasks index _ found with ⟨begun, wanted, _⟩
  refine invariant.passes found rfl ?_ begun fun other wants => ?_
  · rintro _ _ ⟨⟩
    rfl
  · rcases wanted other wants with left | held
    · rcases List.mem_cons.mp left with rfl | behind
      · exact .inr (((invariant.settled other).mono (begun other)).held unmarked)
      · exact .inl behind
    · exact .inr held

theorem Invariant.absent
    (found : before.tasks[index]? = some (.reading read since (.replaying id .collecting rest)))
    (absent : before.db.rowOf keyOrder id = none) (unstored : before.db.entities.get? id = none) :
    ({ before with
        tasks := before.tasks.set index (.reading read since (.replayNext rest)) } :
      RunningDb V).Invariant typeOf keyOrder asString := by
  rcases invariant.tasks index _ found with ⟨begun, wanted, _⟩
  refine invariant.passes found rfl ?_ begun fun other wants => ?_
  · rintro _ _ ⟨⟩
    rfl
  · rcases wanted other wants with left | held
    · rcases List.mem_cons.mp left with rfl | behind
      · exact .inr (.of_present (Nat.le_trans (begun other) (invariant.returned other))
          (unstored.trans absent.symm))
      · exact .inl behind
    · exact .inr held

theorem Invariant.looks {replay next : ReplayStep V}
    (found : before.tasks[index]? = some (.reading read since (.replaying id replay rest)))
    (replaying : before.Replaying keyOrder asString id next)
    (written : next.unwritten = [] → replay.unwritten = [])
    (alone : ∀ other otherReplay, other ≠ index → before.Runs other id otherReplay →
      ∀ writes ∈ next.pending asString, ∀ otherWrites ∈ otherReplay.pending asString, writes = [] ∧
      otherWrites = []) :
    ({ before with
        tasks := before.tasks.set index (.reading read since (.replaying id next rest)) } :
      RunningDb V).Invariant typeOf keyOrder asString := by
  rcases invariant.tasks index _ found with ⟨begun, wanted, _⟩
  refine invariant.reads found before.answers nofun ⟨begun, wanted, replaying⟩ ?_ ?_
  · rintro _ ours _ ⟨⟩
    exact written (ours next rfl)
  · rintro other _ _ otherReplay different ⟨⟩ runs
    exact alone other otherReplay different runs

theorem Invariant.replaces
    (found : before.tasks[index]? = some (.reading read since (.replaying id (.replacing entity)
      rest)))
    (allows : before.Allows typeOf keyOrder asString
      (.reading read since (.replaying id (.replacing entity) rest))) :
    ({ before with
        tasks := before.tasks.set index (.reading read since
          (.replaying id (.putting entity (before.db.entities.get? id)) rest)) } :
      RunningDb V).Invariant typeOf keyOrder asString := by
  rcases invariant.tasks index _ found with ⟨_, _, replaying⟩
  have row := replaying.collected entity rfl
  have written : ∀ other replay, before.Runs other id replay → replay.unwritten = [] := by
    intro other replay runs
    by_contra left
    rcases runs.exists_mem with ⟨task, member, replays⟩
    exact left (allows.2 task member replay replays _ (ReplayStep.of_unwritten left).1).1
  have links := invariant.linked id written
  refine invariant.looks found ⟨replaying.collected, nofun, ?_, ?_⟩ (fun _ => rfl) ?_
  · rintro _ ⟨⟩
    exact rowId_indexWrites asString (fun row held => (invariant.rows id row held).1)
      (invariant.named id entity row).1
  · rintro _ ⟨⟩
    rw [funext links]
    exact perform_indexWrites asString allows.1
  · rintro other replay _ runs _ ⟨⟩ writes pending
    rcases runs.exists_mem with ⟨task, member, replays⟩
    exact (allows.2 task member replay replays writes pending).symm

theorem Invariant.puts {previous : Option (Entity V)}
    (found : before.tasks[index]? = some (.reading read since
      (.replaying id (.putting entity previous) rest))) :
    ({ before with
        db := { before.db with entities := before.db.entities.set entity.id entity }
        tasks := before.tasks.set index (.reading read since
          (.replaying id (.indexing entity (indexWrites asString previous entity)) rest)) } :
      RunningDb V).Invariant typeOf keyOrder asString := by
  rcases invariant.tasks index _ found with ⟨begun, wanted, replaying⟩
  have row := replaying.collected entity rfl
  have named := invariant.named id entity row
  rw [named.1]
  let after : RunningDb V := { before with
    db := { before.db with entities := before.db.entities.set id entity }
    tasks := before.tasks.set index (.reading read since
      (.replaying id (.indexing entity (indexWrites asString previous entity)) rest)) }
  have put : after.db.entities.get? id = some entity := OrderedMap.get?_set_self _ _ _
  have others : ∀ other, other ≠ id →
      after.db.entities.get? other = before.db.entities.get? other := fun other different =>
    OrderedMap.get?_set_of_ne _ different _
  have held : ∀ since other, since ≤ before.earlier.length → before.Held keyOrder since other →
      after.Held keyOrder since other := by
    intro since other reached held
    by_cases same : other = id
    · subst same
      exact .of_present reached (put.trans row.symm)
    · rcases held with ⟨version, rows, newer, found, stored⟩
      exact ⟨version, rows, newer, found, (others other same).trans stored⟩
  have later : Later keyOrder before after := {
    length := Nat.le_refl _
    returned := fun _ => Nat.le_refl _
    versions := fun _ _ found => found
    covered := fun since other reached covered => covered.imp_right (held since other reached)
    held }
  have proceeds : Proceeds typeOf keyOrder asString before after index
      (.reading read since (.replaying id (.putting entity previous) rest))
      (.reading read since
        (.replaying id (.indexing entity (indexWrites asString previous entity)) rest)) := {
    found
    tasks := rfl
    later
    rows := by
      intro other row stored
      by_cases same : other = id
      · subst same
        rw [put] at stored
        cases stored
        exact named
      · rw [others other same] at stored
        exact invariant.rows other row stored
    logged := invariant.logged
    marks := invariant.marks
    returned := invariant.returned
    settled := fun other => later.covered _ other (invariant.returned other)
      (invariant.settled other)
    unmarked := fun other marked => .inl (later.covered _ other (Nat.le_refl _)
      (marked.resolve_right List.not_mem_nil))
    holds := by
      refine ⟨begun, fun other wants => (wanted other wants).imp_right
        (held _ other (Nat.le_trans (begun other) (invariant.returned other))), ?_⟩
      refine ⟨replaying.collected, ?_, replaying.named, replaying.links⟩
      rintro _ ⟨⟩
      exact put
    spares := by
      intro other otherId replay different runs
      refine ⟨fun _ _ row => row, fun known stored held => ?_, fun _ _ _ => rfl⟩
      by_cases same : otherId = id
      · -- A replay of the same entity has put the same row.
        subst same
        have theirs := (invariant.replaying runs).collected known
          (ReplayStep.collected_of_stored stored)
        rw [put, ← row, theirs]
      · rw [others otherId same]
        exact held
    linked := by
      intro other own beside key
      by_cases same : other = id
      · subst same
        have nothing : indexWrites asString previous entity = [] := own _ rfl
        have links := replaying.links _ rfl
        rw [nothing] at links
        rw [put]
        exact congrFun links key
      · rw [others other same]
        refine invariant.linked_of_others found ?_ beside key
        rintro replay ⟨⟩
        exact absurd rfl same
    alone := by
      refine invariant.alone_of_same found ?_
      rintro _ _ ⟨⟩ _ ⟨⟩
      exact ⟨_, rfl, rfl⟩ }
  exact invariant.proceeds proceeds

theorem Invariant.writes {write : IndexWrite} {rows : Option (OrderedMap String String)}
    {writes : List IndexWrite}
    (found : before.tasks[index]? = some (.reading read since
      (.replaying id (.writing entity write rows writes) rest)))
    (unchanged : before.db.relationships.get? write.entry.key = rows) :
    ({ before with
        db := { before.db with relationships := write.writeRows before.db.relationships rows }
        tasks := before.tasks.set index (.reading read since
          (.replaying id (.indexing entity writes) rest)) } :
      RunningDb V).Invariant typeOf keyOrder asString := by
  subst unchanged
  rcases invariant.tasks index _ found with ⟨begun, wanted, replaying⟩
  have rowId : write.entry.rowId = id := replaying.named _ rfl write List.mem_cons_self
  let after : RunningDb V := { before with
    db := { before.db with
      relationships := write.writeRows before.db.relationships
        (before.db.relationships.get? write.entry.key) }
    tasks := before.tasks.set index (.reading read since
      (.replaying id (.indexing entity writes) rest)) }
  have own : (fun key => after.db.relationships.row? key id) = Function.update
      (fun key => before.db.relationships.row? key id) write.entry.key write.value := by
    funext key
    rw [IndexWrite.row?_writeRows, rowId, Function.update_apply]
    simp only [and_true]
  have others : ∀ other, other ≠ id → ∀ key, after.db.relationships.row? key other =
      before.db.relationships.row? key other := by
    intro other different key
    rw [IndexWrite.row?_writeRows, rowId, if_neg fun here => different here.2]
  have later : Later keyOrder before after := {
    length := Nat.le_refl _
    returned := fun _ => Nat.le_refl _
    versions := fun _ _ found => found
    covered := fun _ _ _ covered => covered
    held := fun _ _ _ held => held }
  have links : IndexWrite.perform writes (fun key => after.db.relationships.row? key id) =
      linkAt asString (some entity) := by
    rw [own]
    exact replaying.links _ rfl
  have proceeds : Proceeds typeOf keyOrder asString before after index
      (.reading read since (.replaying id (.writing entity write _ writes) rest))
      (.reading read since (.replaying id (.indexing entity writes) rest)) := {
    found
    tasks := rfl
    later
    rows := invariant.rows
    logged := invariant.logged
    marks := invariant.marks
    returned := invariant.returned
    settled := invariant.settled
    unmarked := fun other marked => .inl (marked.resolve_right List.not_mem_nil)
    holds := by
      refine ⟨begun, wanted, replaying.collected, replaying.stored, ?_, ?_⟩
      · rintro _ ⟨⟩ later member
        exact replaying.named _ rfl later (List.mem_cons_of_mem _ member)
      · rintro _ ⟨⟩
        exact links
    spares := by
      intro other otherId replay different runs
      refine ⟨fun _ _ row => row, fun _ _ row => row, fun theirs pending => others otherId ?_⟩
      rintro rfl
      have overlap := invariant.alone index other otherId _ replay (Ne.symm different)
        (by rw [Runs, found]; rfl) runs _ rfl theirs pending
      cases overlap.1
    linked := by
      intro other ours beside key
      by_cases same : other = id
      · subst same
        have nothing : writes = [] := ours _ rfl
        rw [nothing] at links
        rw [show after.db.entities.get? other = some entity from replaying.stored entity rfl]
        exact congrFun links key
      · rw [others other same]
        refine invariant.linked_of_others found ?_ beside key
        rintro replay ⟨⟩
        exact absurd rfl same
    alone := by
      rintro other _ _ otherReplay different ⟨⟩ runs _ _ theirs pending
      have overlap := invariant.alone index other id _ otherReplay (Ne.symm different)
        (by rw [Runs, found]; rfl) runs _ rfl theirs pending
      cases overlap.1 }
  exact invariant.proceeds proceeds

theorem Invariant.clears
    (found : before.tasks[index]? = some (.reading read since (.replaying id (.indexing entity [])
      rest))) :
    ({ before with
        db := before.db.clearDirty id
        tasks := before.tasks.set index (.reading read since (.replayNext rest)) } :
      RunningDb V).Invariant typeOf keyOrder asString := by
  rcases invariant.tasks index _ found with ⟨begun, wanted, replaying⟩
  have present : before.db.entities.get? id = before.db.rowOf keyOrder id :=
    (replaying.stored entity rfl).trans (replaying.collected entity rfl).symm
  let after : RunningDb V := { before with
    db := before.db.clearDirty id
    tasks := before.tasks.set index (.reading read since (.replayNext rest)) }
  have covered : ∀ since other, since ≤ before.earlier.length →
      before.Covered keyOrder since other → after.Covered keyOrder since other := by
    intro since other reached covered
    by_cases same : other = id
    · subst same
      exact .inr (.of_present reached present)
    · refine covered.imp_left fun dirty => ?_
      rw [EbbDB.isDirty, show after.db.dirty = before.db.dirty.erase id from rfl,
        OrderedMap.get?_erase, if_neg same]
      exact dirty
  have later : Later keyOrder before after := {
    length := Nat.le_refl _
    returned := fun _ => Nat.le_refl _
    versions := fun _ _ found => found
    covered
    held := fun _ _ _ held => held }
  have proceeds : Proceeds typeOf keyOrder asString before after index
      (.reading read since (.replaying id (.indexing entity []) rest))
      (.reading read since (.replayNext rest)) := {
    found
    tasks := rfl
    later
    rows := invariant.rows
    logged := invariant.logged
    marks := by
      intro other type held
      rw [show after.db.dirty = before.db.dirty.erase id from rfl, OrderedMap.get?_erase] at held
      split at held
      · cases held
      · exact invariant.marks other type held
    returned := invariant.returned
    settled := fun other => covered _ other (invariant.returned other) (invariant.settled other)
    unmarked := fun other marked => .inl (covered _ other (Nat.le_refl _)
      (marked.resolve_right List.not_mem_nil))
    holds := by
      refine ⟨begun, stepHolds_replayNext fun other wants => ?_⟩
      rcases wanted other wants with left | held
      · rcases List.mem_cons.mp left with rfl | behind
        · exact .inr (.of_present (Nat.le_trans (begun other) (invariant.returned other)) present)
        · exact .inl behind
      · exact .inr held
    spares := fun _ _ _ _ _ => ⟨fun _ _ row => row, fun _ _ row => row, fun _ _ _ => rfl⟩
    linked := by
      intro other _ beside
      refine invariant.linked_of_others found ?_ beside
      rintro replay ⟨⟩
      rfl
    alone := by
      refine invariant.alone_of_same found fun id replay replays writes pending => ?_
      rw [replay?_replayNext replays] at pending
      cases pending }
  exact invariant.proceeds proceeds

/-! ## Answers -/

theorem Invariant.links {key : String}
    (unwritten : ∀ task ∈ before.tasks, ∀ id replay, task.replay? = some (id, replay) →
      ∀ write ∈ replay.unwritten, write.entry.key ≠ key) :
    Links asString (fun id => before.db.entities.get? id) key (before.db.rowsAt key) := by
  rintro ⟨id, value⟩
  rw [EbbDB.rowsAt, ReverseIndex.mem_rows]
  by_cases written : ∀ index replay, before.Runs index id replay → replay.unwritten = []
  · rw [invariant.linked id written key]
  · simp only [not_forall] at written
    rcases written with ⟨index, replay, runs, left⟩
    rcases ReplayStep.of_unwritten left with
      ⟨pending, entity, stored, collected⟩
    rcases runs.exists_mem with ⟨task, member, replays⟩
    have replaying := invariant.replaying runs
    have links := congrFun (replaying.links _ pending) key
    rw [IndexWrite.perform_of_ne (unwritten task member id replay replays), collected] at links
    dsimp only
    rw [links, replaying.stored entity stored]

theorem Invariant.reflects (found : before.tasks[index]? = some (.reading read since .answering))
    (allows : before.Allows typeOf keyOrder asString (.reading read since .answering)) :
    Answer.Reflects typeOf asString (before.versions keyOrder)
      { read, since, reply := read.reply keyOrder before.db } := by
  rcases invariant.tasks index _ found with ⟨_, held⟩
  refine ⟨fun id => before.db.entities.get? id, fun id => ?_, ?_⟩
  · by_cases wants : read.Wants typeOf id
    · rcases held id wants with ⟨version, rows, newer, found, row⟩
      exact ⟨version, rows, fun _ => newer, found, row⟩
    · rcases invariant.held id with ⟨version, rows, _, found, row⟩
      exact ⟨version, rows, fun wanted => absurd wanted wants, found, row⟩
  · cases read with
    | get id => rfl
    | query type =>
        exact ⟨_, rfl, fun row => EbbDB.mem_entitiesOfType keyOrder⟩
    | queryByRelationship as type targetId =>
        exact ⟨_, rfl, invariant.links (allows _ rfl)⟩
    | queryByRelationshipSource as type sourceId =>
        exact ⟨_, rfl, invariant.links (allows _ rfl)⟩
    | queryByMembership groupId =>
        exact ⟨_, rfl, invariant.links (allows _ rfl)⟩
    | queryByMembershipEntity entityId =>
        exact ⟨_, rfl, invariant.links (allows _ rfl)⟩

theorem Invariant.answers (found : before.tasks[index]? = some (.reading read since .answering))
    (answers : List (Answer V)) :
    ({ before with tasks := before.tasks.set index .finished, answers } :
      RunningDb V).Invariant typeOf keyOrder asString := by
  refine invariant.reads found answers nofun trivial (fun _ _ _ => nofun) ?_
  rintro _ _ _ _ _ ⟨⟩

end

/-! ## Runs -/

theorem invariant_create :
    (create : RunningDb V).Invariant typeOf keyOrder asString where
  rows := nofun
  logged := nofun
  marks := nofun
  returned := fun _ => Nat.le_refl _
  held := fun _ => ⟨0, _, Nat.le_refl _, rfl, rfl⟩
  settled := fun _ => .inr ⟨0, _, Nat.le_refl _, rfl, rfl⟩
  unmarked := fun _ => .inl (.inr ⟨0, _, Nat.le_refl _, rfl, rfl⟩)
  tasks := by rintro _ _ ⟨⟩
  linked := fun _ _ _ => rfl
  alone := fun _ _ _ _ _ _ => nofun

section

variable (invariant : before.Invariant typeOf keyOrder asString)
include invariant

theorem Invariant.begins (holds : before.TaskHolds typeOf keyOrder asString task)
    (fresh : ∀ id replay, task.replay? = some (id, replay) → replay = .checking) :
    ({ before with tasks := before.tasks ++ [task] } : RunningDb V).Invariant typeOf keyOrder
      asString := by
  let after : RunningDb V := { before with tasks := before.tasks ++ [task] }
  have later : Later keyOrder before after := ⟨Nat.le_refl _, fun _ => Nat.le_refl _,
    fun _ _ found => found, fun _ _ _ covered => covered, fun _ _ _ held => held⟩
  have spares : ∀ id replay, Spares keyOrder asString before after id replay := fun _ _ =>
    ⟨fun _ _ row => row, fun _ _ row => row, fun _ _ _ => rfl⟩
  have old : ∀ {index : Nat} {other : Task V}, before.tasks[index]? = some other →
      after.tasks[index]? = some other := fun found =>
    (List.getElem?_append_left (List.getElem?_eq_some_iff.mp found).1).trans found
  have tasks : ∀ {index : Nat} {other : Task V}, after.tasks[index]? = some other →
      before.tasks[index]? = some other ∨ other = task := by
    intro index other found
    by_cases within : index < before.tasks.length
    · exact .inl ((List.getElem?_append_left within).symm.trans found)
    · have here := (List.getElem?_append_right (Nat.le_of_not_lt within)).symm.trans found
      rw [List.getElem?_singleton] at here
      split at here
      · cases here
        exact .inr rfl
      · cases here
  have runs : ∀ {index : Nat} {id : String} {replay : ReplayStep V}, after.Runs index id replay →
      before.Runs index id replay ∨ replay = .checking := by
    intro index id replay runs
    rcases Option.bind_eq_some_iff.mp runs with ⟨other, found, replays⟩
    rcases tasks found with earlier | rfl
    · exact .inl (Option.bind_eq_some_iff.mpr ⟨other, earlier, replays⟩)
    · exact .inr (fresh id replay replays)
  exact {
    rows := invariant.rows
    logged := invariant.logged
    marks := invariant.marks
    returned := invariant.returned
    held := invariant.held
    settled := invariant.settled
    unmarked := fun id => (invariant.unmarked id).imp_right
      fun ⟨index, other, found, left⟩ => ⟨index, other, old found, left⟩
    tasks := by
      intro index other found
      rcases tasks found with earlier | rfl
      · exact (invariant.tasks index other earlier).later invariant later fun id replay _ =>
          spares id replay
      · exact holds.later invariant later fun id replay _ => spares id replay
    linked := by
      intro id written
      apply invariant.linked id
      intro index replay ran
      rcases Option.bind_eq_some_iff.mp ran with ⟨other, found, replays⟩
      exact written index replay (Option.bind_eq_some_iff.mpr ⟨other, old found, replays⟩)
    alone := by
      intro left right id replay otherReplay different ran otherRan writes pending otherWrites
        otherPending
      rcases runs ran with earlier | rfl
      · rcases runs otherRan with otherEarlier | rfl
        · exact invariant.alone left right id replay otherReplay different earlier otherEarlier
            writes pending otherWrites otherPending
        · cases otherPending
      · cases pending }

theorem Invariant.reopens (fits : before.Fits typeOf keyOrder asString .reopen) :
    ({ before with tasks := [], returned := fun _ => before.earlier.length } :
      RunningDb V).Invariant typeOf keyOrder asString := by
  have settled : ∀ id, before.Covered keyOrder before.earlier.length id := by
    intro id
    rcases invariant.unmarked id with covered | ⟨index, task, found, left⟩
    · exact covered
    · exact .inl ((fits task (List.mem_of_getElem? found)).1 id left)
  exact {
    rows := invariant.rows
    logged := invariant.logged
    marks := invariant.marks
    returned := fun _ => Nat.le_refl _
    held := invariant.held
    settled
    unmarked := fun id => .inl (settled id)
    tasks := by rintro _ _ ⟨⟩
    linked := by
      intro id _
      apply invariant.linked id
      intro index replay runs
      rcases runs.exists_mem with ⟨task, member, replays⟩
      exact (fits task member).2 id replay replays
    alone := fun _ _ _ _ _ _ => nofun }

theorem Invariant.proceed {index : Nat} (found : before.tasks[index]? = some task)
    (allows : before.Allows typeOf keyOrder asString task)
    (stepped : before.proceed keyOrder asString index task = some after) :
    after.Invariant typeOf keyOrder asString := by
  cases task with
  | appending actions =>
      cases stepped
      exact invariant.appended found allows
  | marking touched version updates =>
      cases updates with
      | nil =>
          cases stepped
          exact invariant.marked found
      | cons update rest =>
          cases stepped
          exact invariant.asked found
  | flagging touched version update rest =>
      cases stepped
      exact invariant.flagged found
  | finished => cases stepped
  | reading read since step =>
      cases step with
      | listing =>
          cases stepped
          exact invariant.listed found
      | answering =>
          cases stepped
          exact invariant.answers found _
      | replaying id replay rest =>
          cases replay with
          | checking =>
              cases stepped
              by_cases marked : before.db.isDirty id = true
              · simp only [ReplayStep.next, if_pos marked]
                exact invariant.looks found ⟨nofun, nofun, nofun, nofun⟩ (fun _ => rfl)
                  fun _ _ _ _ _ => nofun
              · simp only [ReplayStep.next, if_neg marked]
                exact invariant.unneeded found marked
          | collecting =>
              cases stepped
              cases row : before.db.rowOf keyOrder id with
              | none =>
                  simp only [ReplayStep.next, row, Option.map_none]
                  exact invariant.absent found row (allows row)
              | some entity =>
                  simp only [ReplayStep.next, row, Option.map_some]
                  refine invariant.looks found ⟨?_, nofun, nofun, nofun⟩ (fun _ => rfl)
                    fun _ _ _ _ _ => nofun
                  rintro _ ⟨⟩
                  exact row
          | replacing entity =>
              cases stepped
              exact invariant.replaces found allows
          | putting entity previous =>
              cases stepped
              exact invariant.puts found
          | indexing entity writes =>
              cases writes with
              | nil =>
                  cases stepped
                  exact invariant.clears found
              | cons write writes =>
                  cases stepped
                  rcases invariant.tasks index _ found with ⟨_, _, replaying⟩
                  refine invariant.looks found
                    ⟨replaying.collected, replaying.stored, replaying.named, replaying.links⟩
                    nofun ?_
                  intro other otherReplay different runs
                  refine invariant.alone index other id (.indexing entity (write :: writes))
                    otherReplay (Ne.symm different) ?_ runs
                  rw [Runs, found]
                  rfl
          | writing entity write rows writes =>
              cases stepped
              exact invariant.writes found allows

end

theorem proceed_answers {index : Nat}
    (stepped : before.proceed keyOrder asString index task = some after) :
    (∀ (version : Nat) rows, (before.versions keyOrder)[version]? = some rows →
      (after.versions keyOrder)[version]? = some rows) ∧
    ∀ answer ∈ after.answers, answer ∈ before.answers ∨
      ∃ read since, task = .reading read since .answering ∧
        answer = { read, since, reply := read.reply keyOrder before.db } := by
  cases task with
  | appending actions =>
      cases stepped
      refine ⟨fun version rows found => ?_, fun _ => .inl⟩
      rw [← found]
      exact List.getElem?_append_left (List.getElem?_eq_some_iff.mp found).1
  | marking touched version updates =>
      cases updates with
      | nil =>
          cases stepped
          exact ⟨fun _ _ found => found, fun _ => .inl⟩
      | cons update rest =>
          cases stepped
          exact ⟨fun _ _ found => found, fun _ => .inl⟩
  | flagging touched version update rest =>
      cases stepped
      exact ⟨fun _ _ found => found, fun _ => .inl⟩
  | finished => cases stepped
  | reading read since step =>
      cases step with
      | listing =>
          cases stepped
          exact ⟨fun _ _ found => found, fun _ => .inl⟩
      | answering =>
          cases stepped
          refine ⟨fun _ _ found => found, fun answer member => ?_⟩
          rcases List.mem_append.mp member with old | new
          · exact .inl old
          · exact .inr ⟨read, since, rfl, List.mem_singleton.mp new⟩
      | replaying id replay rest =>
          cases stepped
          refine ⟨fun version rows found => ?_, fun _ => .inl⟩
          have same : (replay.next keyOrder asString before.db id).1.rowOf keyOrder =
              before.db.rowOf keyOrder := by
            cases replay with
            | indexing entity writes =>
                cases writes with
                | nil => rfl
                | cons write writes => rfl
            | checking => rfl
            | collecting => rfl
            | replacing => rfl
            | putting => rfl
            | writing => rfl
          rw [versions, same]
          exact found

theorem Reflects.mono {versions later : List (String → Option (Entity V))} {answer : Answer V}
    (reflects : answer.Reflects typeOf asString versions)
    (kept : ∀ (version : Nat) rows, versions[version]? = some rows →
      later[version]? = some rows) : answer.Reflects typeOf asString later := by
  rcases reflects with ⟨seen, held, gives⟩
  refine ⟨seen, fun id => ?_, gives⟩
  rcases held id with ⟨version, rows, newer, found, row⟩
  exact ⟨version, rows, newer, kept version rows found, row⟩

/-- In a run whose requests all fit, every answer reflects what had returned when its read began. -/
theorem reflects_of_run {events : List (DatabaseEvent V)} {final : RunningDb V}
    (meets : (machine keyOrder asString).Meets (Fits typeOf keyOrder asString) create events)
    (reached : (machine keyOrder asString).run create events = some final) :
    ∀ answer ∈ final.answers, answer.Reflects typeOf asString (final.versions keyOrder) := by
  have step : ∀ (state : RunningDb V) event next,
      (state.Invariant typeOf keyOrder asString ∧
        ∀ answer ∈ state.answers, answer.Reflects typeOf asString (state.versions keyOrder)) →
      state.Fits typeOf keyOrder asString event →
        (machine keyOrder asString).step state event = some next →
          next.Invariant typeOf keyOrder asString ∧
            ∀ answer ∈ next.answers,
              answer.Reflects typeOf asString (next.versions keyOrder) := by
    rintro state event next ⟨invariant, reflects⟩ fits stepped
    cases event with
    | append actions =>
        cases stepped
        exact ⟨invariant.begins trivial nofun, reflects⟩
    | read read =>
        cases stepped
        refine ⟨invariant.begins ?_ ?_, reflects⟩
        · refine ⟨fun _ => Nat.le_refl _, ?_⟩
          cases read with
          | get id =>
              exact ⟨fun other wants => .inl (wants ▸ List.mem_cons_self),
                nofun, nofun, nofun, nofun⟩
          | query type => exact fun _ wants => wants
          | queryByRelationship as type targetId => exact fun _ wants => wants
          | queryByRelationshipSource as type sourceId => exact fun _ wants => wants
          | queryByMembership groupId => exact fun _ wants => wants
          | queryByMembershipEntity entityId => exact fun _ wants => wants
        · intro id replay replays
          cases read with
          | get _ =>
              cases replays
              rfl
          | query => cases replays
          | queryByRelationship => cases replays
          | queryByRelationshipSource => cases replays
          | queryByMembership => cases replays
          | queryByMembershipEntity => cases replays
    | reopen =>
        cases stepped
        exact ⟨invariant.reopens fits, reflects⟩
    | proceed index =>
        rcases Option.bind_eq_some_iff.mp stepped with ⟨task, found, stepped⟩
        have allows := fits task found
        rcases proceed_answers stepped with ⟨kept, answers⟩
        refine ⟨invariant.proceed found allows stepped, fun answer member => ?_⟩
        rcases answers answer member with earlier | ⟨read, since, rfl, rfl⟩
        · exact Reflects.mono (reflects answer earlier) kept
        · exact Reflects.mono (invariant.reflects found allows) kept
  exact (Machine.run_preserves step ⟨invariant_create, nofun⟩ meets reached).2

def notePut (id : String) (gsn : Nat) : Action String where
  id
  actorId := "a_1"
  hlc := gsn
  gsn
  updates := [{
    id := "upd_" ++ id
    subjectId := "note_1"
    subjectType := "note"
    method := .put
    data := some [] }]

def byKey (left right : String) : Bool := decide (left ≤ right)

/-- A read that begins before an append writes, and one behind it. -/
def readBeside : List (DatabaseEvent String) :=
  [.append [notePut "act_1" 1], .read (.get "note_1"), .proceed 1, .proceed 0, .proceed 0,
    .proceed 0, .proceed 0, .proceed 1, .read (.get "note_1"), .proceed 2, .proceed 2, .proceed 2,
    .proceed 2, .proceed 2, .proceed 2, .reopen]

theorem rowOf_notePut {id : String} (other : id ≠ "note_1") :
    ((EbbDB.create : EbbDB String).appendAll [notePut "act_1" 1]).1.rowOf byKey id = none := by
  simp [EbbDB.rowOf, EbbDB.getForEntity, EbbDB.appendAll, EbbDB.appendInto, EbbDB.create, inKeyOrder, OrderedMap.set, OrderedMap.empty, OrderedMap.get?, setEntry, notePut, collectSubjectIds, other, sortBy, Storage.replay, entityUpdates]

theorem allows_notePut {state : RunningDb String} (empty : state.db = .create)
    (idle : ∀ task ∈ state.tasks, task.replay? = none) :
    state.Allows (fun _ => "note") byKey some (.appending [notePut "act_1" 1]) := by
  refine ⟨by decide, fun id changed => ⟨?_, fun task member replay replays => ?_⟩⟩
  · by_contra unnamed
    have other : id ≠ "note_1" := fun same => unnamed (same ▸ List.mem_cons_self)
    rw [empty, rowOf_notePut other] at changed
    exact changed rfl
  · rw [idle task member] at replays
    cases replays

theorem meets_proceed {typeOf : String → String} {keyOrder : String → String → Bool}
    {asString : V → Option String} {state next : RunningDb V} {index : Nat}
    {rest : List (DatabaseEvent V)} (found : state.tasks[index]? = some task)
    (allows : state.Allows typeOf keyOrder asString task)
    (stepped : state.proceed keyOrder asString index task = some next)
    (meets : (machine keyOrder asString).Meets (Fits typeOf keyOrder asString) next rest) :
    (machine keyOrder asString).Meets (Fits typeOf keyOrder asString) state
      (.proceed index :: rest) := by
  refine ⟨fun other held => ?_, fun later reached => ?_⟩
  · rw [found] at held
    cases held
    exact allows
  · rcases Option.bind_eq_some_iff.mp reached with ⟨other, held, reached⟩
    rw [found] at held
    cases held
    rw [stepped] at reached
    cases reached
    exact meets

theorem reflects_of_run_beside :
    ∃ final, (machine byKey some).run create readBeside = some final ∧
      final.answers.length = 2 ∧
      ∀ answer ∈ final.answers,
        answer.Reflects (fun _ => "note") some (final.versions byKey) := by
  refine ⟨_, rfl, rfl, @reflects_of_run String (fun _ => "note") byKey some readBeside _ ?_ rfl⟩
  refine ⟨trivial, ?_⟩
  rintro _ ⟨⟩
  refine ⟨trivial, ?_⟩
  rintro _ ⟨⟩
  refine meets_proceed rfl trivial rfl ?_
  refine meets_proceed rfl (allows_notePut rfl
    (List.forall_mem_cons.mpr ⟨rfl, List.forall_mem_cons.mpr ⟨rfl, List.forall_mem_nil _⟩⟩)) rfl ?_
  refine meets_proceed rfl trivial rfl ?_
  refine meets_proceed rfl trivial rfl ?_
  refine meets_proceed rfl trivial rfl ?_
  refine meets_proceed rfl nofun rfl ?_
  refine ⟨trivial, ?_⟩
  rintro _ ⟨⟩
  refine meets_proceed rfl trivial rfl ?_
  refine meets_proceed rfl nofun rfl ?_
  refine meets_proceed rfl ⟨by unfold KeysApart; decide, ?_⟩ rfl ?_
  · refine List.forall_mem_cons.mpr ⟨nofun, List.forall_mem_cons.mpr ⟨nofun,
      List.forall_mem_cons.mpr ⟨?_, List.forall_mem_nil _⟩⟩⟩
    rintro _ ⟨⟩
    exact nofun
  refine meets_proceed rfl trivial rfl ?_
  refine meets_proceed rfl trivial rfl ?_
  refine meets_proceed rfl nofun rfl ?_
  refine ⟨?_, fun _ _ => trivial⟩
  exact List.forall_mem_cons.mpr ⟨⟨nofun, nofun⟩, List.forall_mem_cons.mpr ⟨⟨nofun, nofun⟩,
    List.forall_mem_cons.mpr ⟨⟨nofun, nofun⟩, List.forall_mem_nil _⟩⟩⟩

/-- An append between the log read of a replay and its end: its mark stands already, the replay
clears it, and the next read gives the old row. -/
def overtaken : List (DatabaseEvent String) :=
  [.append [notePut "act_1" 1], .proceed 0, .proceed 0, .proceed 0, .proceed 0,
    .read (.get "note_1"), .proceed 1, .proceed 1, .proceed 1,
    .append [notePut "act_2" 2], .proceed 2, .proceed 2, .proceed 2,
    .proceed 1, .proceed 1, .proceed 1, .read (.get "note_1"), .proceed 3, .proceed 3]

theorem overtaken_stale :
    ∃ final, (machine byKey some).run create overtaken = some final ∧
      final.returned "note_1" = 2 ∧
      ∃ answer ∈ final.answers, ∀ typeOf,
        ¬ answer.Reflects typeOf some (final.versions byKey) := by
  refine ⟨_, rfl, rfl, _, List.mem_cons_of_mem _ List.mem_cons_self, ?_⟩
  rintro typeOf ⟨seen, held, gives⟩
  rcases held "note_1" with ⟨version, rows, newer, found, row⟩
  have reached : 2 ≤ version := newer rfl
  have within : version < 3 := (List.getElem?_eq_some_iff.mp found).1
  obtain rfl : version = 2 := by omega
  have present : some (some 2) = some ((rows "note_1").map Entity.lastGsn) :=
    congrArg (Option.map fun rows : String → Option (Entity String) =>
      (rows "note_1").map Entity.lastGsn) found
  have stale : some 1 = (seen "note_1").map Entity.lastGsn :=
    congrArg (fun reply : AdapterReply String => match reply with
      | .entity entity => entity.map Entity.lastGsn
      | _ => none) gives
  rw [row, ← Option.some.inj present] at stale
  cases stale

end Ebb.Storage.RunningDb
