import Ebb.Foundation.Bag
import Ebb.Sync.GroupListing
import Mathlib.Data.List.ReduceOption

namespace Ebb.Sync.GroupListing

/-! What the reads of a page answer: on a store whose system rows are up to date they answer
as the log does, and a window of memberships ships the rows it names and their relationships. -/

/-! ## Stores -/

def Named (table : OrderedMap String Row) : Prop :=
  ∀ id row, table.get? id = some row → row.id = id

/-- No row of a system type is cached or logged under the id. -/
def Ordinary (s : Store) (id : String) : Prop :=
  ∀ row, s.entities.get? id = some row ∨ s.log.get? id = some row → row.type ∉ systemTypes

/-- Rows are filed under their ids, every Action can be replayed, and nothing is cached that
was not logged. -/
structure Filed (log : OrderedMap String Row) (s : Store) : Prop where
  same : s.log = log
  readable : s.unreadable = []
  cached : Named s.entities
  logged : Named log
  backed : ∀ {id}, log.get? id = none → s.entities.get? id = none

/-- A store between two Actions: a system row that is behind the log is marked. -/
structure Consistent (s : Store) : Prop where
  filed : Filed s.log s
  marked : ∀ id, s.entities.get? id = s.log.get? id ∨ Ordinary s id ∨
    ∃ mark, s.dirty.get? id = some mark ∧ mark.subjectType ∈ systemTypes

/-- A store whose system rows are those of the log. -/
structure Ready (log : OrderedMap String Row) (s : Store) : Prop where
  filed : Filed log s
  exact : ∀ id, s.entities.get? id = log.get? id ∨ Ordinary s id

variable {log : OrderedMap String Row} {s : Store}

theorem entities_clearSettled (s : Store) (id : String) :
    (s.clearSettled id).entities = s.entities ∧ (s.clearSettled id).log = s.log ∧
      (s.clearSettled id).unreadable = s.unreadable := by
  rw [Store.clearSettled]
  split
  · split
    · exact ⟨rfl, rfl, rfl⟩
    · exact ⟨rfl, rfl, rfl⟩
  · exact ⟨rfl, rfl, rfl⟩

variable {id : String} {table : OrderedMap String Row} {row : Row} {type groupId : String}
  {ids : List (Option String)} {byId : String → Option Row} {emitted : List Row × List String}

theorem Ordinary.congr {other : Store} (ordinary : Ordinary s id)
    (entities : other.entities.get? id = s.entities.get? id) (logs : other.log = s.log) :
    Ordinary other id := by
  intro row found
  rw [entities, logs] at found
  exact ordinary row found

theorem materialize_spec (readable : s.unreadable = [])
    (backed : ∀ {id}, s.log.get? id = none → s.entities.get? id = none) (id : String) :
    (s.materialize id).1 = formatLiveEntity (s.log.get? id) ∧
      (s.materialize id).2.log = s.log ∧ (s.materialize id).2.unreadable = s.unreadable ∧
      (∀ other, (s.materialize id).2.entities.get? other =
        if other = id then s.log.get? id else s.entities.get? other) := by
  rw [Store.materialize]
  split
  · next absent =>
      rcases entities_clearSettled s id with ⟨entities, logs, unreadable⟩
      refine ⟨by rw [backed absent, absent], logs, unreadable, fun other => ?_⟩
      rw [entities]
      split
      · next same => rw [same, backed absent, absent]
      · rfl
  · next row logged =>
      split
      · next current =>
          rcases entities_clearSettled s id with ⟨entities, logs, unreadable⟩
          refine ⟨by rw [logged], logs, unreadable, fun other => ?_⟩
          rw [entities]
          split
          · next same => rw [same, current, logged]
          · rfl
      · split
        · next damaged =>
            rw [readable] at damaged
            cases damaged
        · rcases entities_clearSettled { s with entities := s.entities.set id row } id with
            ⟨entities, logs, unreadable⟩
          refine ⟨by rw [logged], logs, unreadable, fun other => ?_⟩
          rw [entities, OrderedMap.get?_set, logged]

theorem Filed.materialize (filed : Filed log s) (id : String) :
    (s.materialize id).1 = formatLiveEntity (log.get? id) ∧ Filed log (s.materialize id).2 ∧
      (s.materialize id).2.entities.get? id = log.get? id ∧
      ∀ other, (s.materialize id).2.entities.get? other = s.entities.get? other ∨
        (s.materialize id).2.entities.get? other = log.get? other := by
  rcases filed with ⟨rfl, readable, cached, logged, backed⟩
  rcases materialize_spec readable backed id with ⟨result, logs, unreadable, entities⟩
  refine ⟨result, ⟨logs, unreadable.trans readable, ?_, logged, ?_⟩, ?_, ?_⟩
  · intro other row found
    rw [entities] at found
    split at found
    · next same => exact same ▸ logged id row found
    · exact cached other row found
  · intro other absent
    rw [entities]
    split
    · next same => exact same ▸ absent
    · exact backed absent
  · rw [entities, if_pos rfl]
  · intro other
    have after := entities other
    split at after
    · next same => exact .inr (same ▸ after)
    · exact .inl after

theorem formatLiveEntity_ne_failed (row : Option Row) : formatLiveEntity row ≠ .failed := by
  rcases row with _ | row
  · exact nofun
  · rw [formatLiveEntity]
    split
    · exact nofun
    · exact nofun

theorem run_bind_ok {read : Listing α} {more : α → Listing β} {value : α} {middle : Store}
    (ran : read.run s = (.ok value, middle)) : (read >>= more).run s = (more value).run middle := by
  change (ExceptT.bindCont more (read.run s).1 : StateM Store _).run (read.run s).2 = _
  rw [ran]
  rfl

theorem materializeEach_spec (ids : List String) (filed : Filed log s) :
    ∃ next, (materializeEach ids).run s = (.ok (), next) ∧ Filed log next ∧
      (∀ id ∈ ids, next.entities.get? id = log.get? id) ∧
      ∀ id, next.entities.get? id = s.entities.get? id ∨ next.entities.get? id = log.get? id := by
  induction ids generalizing s with
  | nil => exact ⟨s, rfl, filed, nofun, fun _ => .inl rfl⟩
  | cons id rest induction =>
      rcases filed.materialize id with ⟨result, still, current, others⟩
      rcases induction still with ⟨next, ran, after, each, kept⟩
      refine ⟨next, ?_, after, ?_, ?_⟩
      · have replayed := formatLiveEntity_ne_failed (log.get? id)
        have first : (GroupListing.materialize id).run s =
            (.ok (s.materialize id).1, (s.materialize id).2) := rfl
        rw [result] at first
        rw [← ran, materializeEach, run_bind_ok first]
        split
        · next failed => exact absurd failed replayed
        · rfl
        · rfl
      · intro other member
        rcases List.mem_cons.mp member with rfl | later
        · rcases kept other with same | logged
          · rw [same, current]
          · exact logged
        · exact each other later
      · intro other
        rcases kept other with same | logged
        · rw [same]
          exact others other
        · exact .inr logged

theorem materializeAll_spec (ids : List (Option String)) (filed : Filed log s) :
    ∃ next, (materializeAll ids).run s = (.ok (), next) ∧ Filed log next ∧
      (∀ id, some id ∈ ids → next.entities.get? id = log.get? id) ∧
      ∀ id, next.entities.get? id = s.entities.get? id ∨ next.entities.get? id = log.get? id := by
  rcases materializeEach_spec ids.reduceOption.eraseDups filed with ⟨next, ran, still, each, kept⟩
  refine ⟨next, ran, still, fun id member => each id ?_, kept⟩
  rw [List.mem_eraseDups]
  exact List.reduceOption_mem_iff.mpr member

theorem Ready.after {next : Store} (ready : Ready log s) (filed : Filed log next)
    (kept : ∀ id, next.entities.get? id = s.entities.get? id ∨
      next.entities.get? id = log.get? id) : Ready log next := by
  refine ⟨filed, fun id => ?_⟩
  rcases kept id with same | logged
  · rcases ready.exact id with current | ordinary
    · exact .inl (same.trans current)
    · exact .inr (ordinary.congr same (filed.same.trans ready.filed.same.symm))
  · exact .inl logged

theorem Consistent.materializePrefix (consistent : Consistent s) :
    ∃ next, (materializePrefix none).run s = (.ok (), next) ∧ Ready s.log next := by
  rcases materializeAll_spec ((dirtyEntityIdsForTypes systemTypes s).map some) consistent.filed with
    ⟨next, ran, filed, each, kept⟩
  refine ⟨next, ran, filed, fun id => ?_⟩
  rcases consistent.marked id with current | ordinary | ⟨mark, found, system⟩
  · rcases kept id with same | logged
    · exact .inl (same.trans current)
    · exact .inl logged
  · rcases kept id with same | logged
    · exact .inr (ordinary.congr same filed.same)
    · exact .inl logged
  · refine .inl (each id (List.mem_map_of_mem ?_))
    refine List.mem_map.mpr ⟨(id, mark), List.mem_filter.mpr ⟨?_, decide_eq_true system⟩, rfl⟩
    exact (s.dirty.get?_eq_some_iff id mark).mp found

/-! ## Reads -/

/-- A read that answers `value` on every store that is ready for `log`, and leaves it ready. -/
def Gives (log : OrderedMap String Row) (read : Listing α) (value : α) : Prop :=
  ∀ s, Ready log s → ∃ next, read.run s = (.ok value, next) ∧ Ready log next

theorem Gives.pure (value : α) : Gives log (Pure.pure value : Listing α) value :=
  fun s ready => ⟨s, rfl, ready⟩

theorem Gives.bind {read : Listing α} {more : α → Listing β} {first : α} {second : β}
    (reads : Gives log read first) (reading : Gives log (more first) second) :
    Gives log (read >>= more) second := by
  intro s ready
  rcases reads s ready with ⟨middle, ran, still⟩
  rcases reading middle still with ⟨next, ranOn, further⟩
  refine ⟨next, ?_, further⟩
  rw [run_bind_ok ran, ranOn]

theorem Gives.materialize (log : OrderedMap String Row) (id : String) :
    Gives log (GroupListing.materialize id) (formatLiveEntity (log.get? id)) := by
  intro s ready
  rcases ready.filed.materialize id with ⟨result, filed, _, kept⟩
  exact ⟨(s.materialize id).2, by rw [← result]; rfl, ready.after filed kept⟩

def liveRow (log : OrderedMap String Row) (id : String) : Option Row :=
  (log.get? id).filter fun row => !row.deleted

def liveAmong (log : OrderedMap String Row) (ids : List (Option String)) (id : String) : Option Row :=
  if some id ∈ ids then liveRow log id else none

theorem gives_loadLiveRows (log : OrderedMap String Row) (ids : List (Option String)) :
    Gives log (loadLiveRows ids) (liveAmong log ids) := by
  intro s ready
  rcases materializeAll_spec ids ready.filed with ⟨next, ran, filed, each, kept⟩
  refine ⟨next, ?_, ready.after filed kept⟩
  have rows : (fun id => if some id ∈ ids then (next.entities.get? id).filter fun row => !row.deleted
      else none) = liveAmong log ids := by
    funext id
    rw [liveAmong]
    split
    · next member => rw [each id member, liveRow]
    · rfl
  rw [← rows, loadLiveRows, run_bind_ok ran]
  rfl

/-! ## Queries -/

def rowsOf (table : OrderedMap String Row) : List Row := table.entries.map Prod.snd

theorem mem_rowsOf (named : Named table) (row : Row) :
    row ∈ rowsOf table ↔ table.get? row.id = some row := by
  constructor
  · intro member
    rcases List.mem_map.mp member with ⟨⟨id, filed⟩, listed, rfl⟩
    have found := (table.get?_eq_some_iff id filed).mpr listed
    rw [← named id filed found] at found
    exact found
  · intro found
    exact List.mem_map.mpr ⟨(row.id, row), (table.get?_eq_some_iff _ _).mp found, rfl⟩

theorem nodup_rowsOf (named : Named table) : ((rowsOf table).map Row.id).Nodup := by
  have keys : (rowsOf table).map Row.id = table.entries.map Prod.fst := by
    rw [rowsOf, List.map_map]
    apply List.map_congr_left
    rintro ⟨id, row⟩ listed
    exact named id row ((table.get?_eq_some_iff id row).mpr listed)
  rw [keys]
  exact table.nodup

theorem distinct_filtered (named : Named table) {key : Row → κ}
    (separates : ∀ {left right}, key left = key right → left.id = right.id) (keep : Row → Bool) :
    (((rowsOf table).filter keep).map key).Nodup := by
  have fewer : (((rowsOf table).filter keep).map Row.id).Nodup :=
    (nodup_rowsOf named).sublist (List.filter_sublist.map Row.id)
  rw [List.Nodup, List.pairwise_map] at fewer ⊢
  exact fewer.imp fun different same => different (separates same)

theorem Ready.ordered (ready : Ready log s) {κ : Type} [LinearOrder κ] (key : Row → κ)
    (separates : ∀ {left right}, key left = key right → left.id = right.id) (keep : Row → Bool)
    (system : ∀ {row}, keep row = true → row.type ∈ systemTypes) :
    Keyset.ordered key (s.rows.filter keep) = Keyset.ordered key ((rowsOf log).filter keep) := by
  apply Keyset.ordered_congr key (distinct_filtered ready.filed.cached separates keep)
    (distinct_filtered ready.filed.logged separates keep)
  intro row
  rw [List.mem_filter, List.mem_filter]
  apply and_congr_left
  intro kept
  rw [mem_rowsOf ready.filed.cached, mem_rowsOf ready.filed.logged]
  rcases ready.exact row.id with same | ordinary
  · rw [same]
  · rw [Ordinary, ready.filed.same] at ordinary
    exact ⟨fun found => absurd (system kept) (ordinary row (.inl found)),
      fun found => absurd (system kept) (ordinary row (.inr found))⟩

theorem system_of_filed (system : type ∈ systemTypes) (filed : row.filed type groupId = true)
    : row.type ∈ systemTypes := by
  rw [Row.filed, Bool.and_eq_true, Bool.and_eq_true, decide_eq_true_eq] at filed
  rw [filed.1.1]
  exact system

theorem memberKey_separates {left right : Row} (same : memberKey left = memberKey right) :
    left.id = right.id := congrArg (fun key => (ofLex key).2) same

/-- The live `groupMember` rows of the Group, by actor. -/
def membersOf (log : OrderedMap String Row) (groupId : String) : List Row :=
  Keyset.ordered memberKey ((rowsOf log).filter fun row => row.filed "groupMember" groupId)

/-- The live `entityGroup` rows of the Group, by id. -/
def membershipsOf (log : OrderedMap String Row) (groupId : String) : List Row :=
  Keyset.ordered Row.id ((rowsOf log).filter fun row => row.filed "entityGroup" groupId)

def relationshipsOf (log : OrderedMap String Row) : List Row :=
  Keyset.ordered Row.id ((rowsOf log).filter fun row => row.type = "relationship" && !row.deleted)

theorem filter_filed {κ : Type} [LinearOrder κ] {key : Row → κ} (named : Named log)
    (separates : ∀ {left right}, key left = key right → left.id = right.id)
    (filed keep : Row → Bool) :
    Keyset.ordered key ((rowsOf log).filter fun row => filed row && keep row) =
      (Keyset.ordered key ((rowsOf log).filter filed)).filter keep := by
  rw [← Keyset.ordered_filter key (distinct_filtered named separates filed), List.filter_filter]
  congr 2
  funext row
  exact Bool.and_comm _ _

theorem gives_listGroupMembers (named : Named log) (groupId : String)
    (after : Option (Option String × Option String)) (limit : Nat) :
    Gives log (listGroupMembers groupId after limit)
      ((((membersOf log groupId).filter (memberAfter after)).take limit).map
        fun row => (row.id, row.actorId)) := by
  intro s ready
  refine ⟨s, ?_, ready⟩
  have query := ready.ordered memberKey memberKey_separates
    (fun row => row.filed "groupMember" groupId && memberAfter after row)
    fun kept => system_of_filed (by decide) (Bool.and_eq_true_iff.mp kept).1
  rw [membersOf, ← filter_filed named memberKey_separates, ← query]
  rfl

theorem gives_listEntityGroupMemberships (named : Named log) (groupId : String)
    (after : Option String) (limit : Nat) :
    Gives log (listEntityGroupMemberships groupId after limit)
      ((((membershipsOf log groupId).filter fun row => after.all fun last => last < row.id).take
        limit).map fun row => (row.id, row.entityId)) := by
  intro s ready
  refine ⟨s, ?_, ready⟩
  have query := ready.ordered Row.id (fun same => same)
    (fun row => row.filed "entityGroup" groupId && after.all fun last => last < row.id)
    fun kept => system_of_filed (by decide) (Bool.and_eq_true_iff.mp kept).1
  rw [membershipsOf, ← filter_filed named (fun same => same), ← query]
  rfl

theorem gives_listPageRelationshipIds (named : Named log) (groupId : String) (after : Option String)
    (windowEnd : String) :
    Gives log (listPageRelationshipIds groupId after windowEnd)
      ((((membershipsOf log groupId).filter fun row => row.id ≤ windowEnd &&
        after.all fun last => last < row.id)).flatMap fun window =>
          ((relationshipsOf log).filter fun row =>
            row.sourceId.isSome && row.sourceId = window.entityId).map Row.id) := by
  intro s ready
  refine ⟨s, ?_, ready⟩
  have page := ready.ordered Row.id (fun same => same)
    (fun row => row.filed "entityGroup" groupId && (row.id ≤ windowEnd &&
      after.all fun last => last < row.id))
    fun kept => system_of_filed (by decide) (Bool.and_eq_true_iff.mp kept).1
  have related := ready.ordered Row.id (fun same => same)
    (fun row => row.type = "relationship" && !row.deleted)
    fun {row} kept => by
      rw [Bool.and_eq_true, decide_eq_true_eq] at kept
      rw [kept.1]
      decide
  rw [membershipsOf, ← filter_filed named (fun same => same), ← page, relationshipsOf, ← related]
  simp only [← Bool.and_assoc]
  rfl

/-! ## Members -/

theorem mem_membersOf :
    row ∈ membersOf log groupId ↔ row ∈ rowsOf log ∧ row.filed "groupMember" groupId = true := by
  rw [membersOf, Keyset.mem_ordered, List.mem_filter]

theorem filed_iff : row.filed type groupId = true ↔
    row.type = type ∧ row.groupId = some groupId ∧ row.deleted = false := by
  simp [Row.filed, and_assoc]

theorem liveRow_eq_some (named : Named log) :
    liveRow log id = some row ↔ row ∈ rowsOf log ∧ row.id = id ∧ row.deleted = false := by
  rw [liveRow, Option.filter_eq_some_iff, mem_rowsOf named]
  constructor
  · rintro ⟨found, live⟩
    have same := named id row found
    exact ⟨same ▸ found, same, by simpa using live⟩
  · rintro ⟨found, rfl, live⟩
    exact ⟨found, by simpa using live⟩

theorem liveRow_of_filed (named : Named log) (member : row ∈ rowsOf log)
    (filed : row.filed type groupId = true) :
    liveRow log row.id = some row :=
  (liveRow_eq_some named).mpr ⟨member, rfl, (filed_iff.mp filed).2.2⟩

theorem typedRow_of_filed (named : Named log) (member : row ∈ rowsOf log)
    (filed : row.filed type groupId = true) (listed : some row.id ∈ ids)
    : typedRow (liveAmong log ids) type row.id = some row := by
  rw [typedRow, liveAmong, if_pos listed, liveRow_of_filed named member filed]
  simp [(filed_iff.mp filed).1]

theorem filterMap_eq_self {α β : Type} {back : α → Option β} {out : β → α} {list : List β}
    (each : ∀ entry ∈ list, back (out entry) = some entry) :
      (list.map out).filterMap back = list := by
  induction list with
  | nil => rfl
  | cons entry rest induction =>
      rw [List.map_cons, List.filterMap_cons_some (each entry List.mem_cons_self),
        induction fun other member => each other (List.mem_cons_of_mem _ member)]

theorem gives_emitMembers (named : Named log) {taken : List Row}
    (members : ∀ row ∈ taken, row ∈ membersOf log groupId) :
    Gives log (emitMembers groupId (taken.map fun row => (row.id, row.actorId))) taken := by
  have loaded := gives_loadLiveRows log
    ((taken.map fun row => (row.id, row.actorId)).map fun entry => some entry.1)
  have rows : ((taken.map fun row => (row.id, row.actorId)).filterMap fun entry =>
      typedRow (liveAmong log ((taken.map fun row => (row.id, row.actorId)).map
        fun entry => some entry.1)) "groupMember" entry.1) = taken := by
    apply filterMap_eq_self
    intro row member
    rcases mem_membersOf.mp (members row member) with ⟨logged, filed⟩
    apply typedRow_of_filed named logged filed
    rw [List.map_map]
    exact List.mem_map_of_mem member
  have ofGroup : (taken.filter fun row => row.groupId = some groupId) = taken := by
    rw [List.filter_eq_self]
    intro row member
    exact decide_eq_true (filed_iff.mp (mem_membersOf.mp (members row member)).2).2.1
  refine loaded.bind ?_
  rw [rows, ofGroup]
  exact Gives.pure taken

/-! ## Memberships -/

/-- What was emitted is what the log has of the ids that were seen, each once. -/
structure Emitted (byId : String → Option Row) (ids : List (Option String))
    (emitted : List Row × List String) : Prop where
  seen : ∀ id, id ∈ emitted.2 ↔ some id ∈ ids
  rows : ∀ row, row ∈ emitted.1 ↔ some row.id ∈ ids ∧ byId row.id = some row
  nodup : (emitted.1.map Row.id).Nodup

theorem Emitted.emitRow (named : ∀ id row, byId id = some row → row.id = id)
    (before : Emitted byId ids emitted) (id : Option String)
    : Emitted byId (ids ++ [id]) (emitRow byId emitted id) := by
  cases id with
  | none =>
      have same : ∀ id : String, some id ∈ ids ++ [none] ↔ some id ∈ ids := by simp
      exact ⟨fun id => (before.seen id).trans (same id).symm,
        fun row => (before.rows row).trans (and_congr_left fun _ => (same row.id).symm),
        before.nodup⟩
  | some id =>
      rw [GroupListing.emitRow]
      split
      · next seen =>
          have same : ∀ other : String, some other ∈ ids ++ [some id] ↔ some other ∈ ids := by
            intro other
            rw [List.mem_append, List.mem_singleton, Option.some.injEq]
            refine or_iff_left_of_imp ?_
            rintro rfl
            exact (before.seen other).mp seen
          exact ⟨fun other => (before.seen other).trans (same other).symm,
            fun row => (before.rows row).trans (and_congr_left fun _ => (same row.id).symm),
            before.nodup⟩
      · next unseen =>
          have fresh : some id ∉ ids := fun listed => unseen ((before.seen id).mpr listed)
          constructor
          case seen =>
            intro other
            rw [List.mem_cons, List.mem_append, before.seen, List.mem_singleton, Option.some.injEq,
              or_comm]
          case rows =>
            intro row
            rw [List.mem_append, List.mem_append, before.rows, List.mem_singleton, Option.some.injEq,
              Option.mem_toList]
            constructor
            · rintro (⟨listed, found⟩ | found)
              · exact ⟨.inl listed, found⟩
              · have same := named id row found
                exact ⟨.inr same, same ▸ found⟩
            · rintro ⟨listed | same, found⟩
              · exact .inl ⟨listed, found⟩
              · exact .inr (same ▸ found)
          case nodup =>
            rw [List.map_append, List.nodup_append']
            refine ⟨before.nodup, ?_, ?_⟩
            · cases byId id with
              | none => exact List.nodup_nil
              | some row => exact List.nodup_singleton _
            · intro other old new
              rcases List.mem_map.mp old with ⟨row, listed, rfl⟩
              rcases List.mem_map.mp new with ⟨added, found, same⟩
              have isId := named id added (Option.mem_toList.mp found)
              have old := ((before.rows row).mp listed).1
              rw [← same, isId] at old
              exact fresh old

theorem Emitted.congr {others : List (Option String)} (before : Emitted byId ids emitted)
    (same : ∀ id : String, some id ∈ others ↔ some id ∈ ids) : Emitted byId others emitted :=
  ⟨fun id => (before.seen id).trans (same id).symm,
    fun row => (before.rows row).trans (and_congr_left fun _ => (same row.id).symm), before.nodup⟩

/-- The ids a membership row ships: its own and its entity's. -/
def namedIds (taken : List (String × Option String)) : List (Option String) :=
  taken.flatMap fun entry => [some entry.1, entry.2]

theorem emitted_membershipRows (named : ∀ id row, byId id = some row → row.id = id)
    (taken : List (String × Option String)) :
    ∃ seen, Emitted byId (namedIds taken) (membershipRows byId taken, seen) := by
  have general : ∀ (taken : List (String × Option String)) (ids : List (Option String))
      (emitted : List Row × List String), Emitted byId ids emitted →
        Emitted byId (ids ++ namedIds taken) (taken.foldl (fun emitted entry =>
          let emitted := emitRow byId emitted (some entry.1)
          if entry.2 = some entry.1 then emitted else emitRow byId emitted entry.2) emitted) := by
    intro taken
    induction taken with
    | nil =>
        intro ids emitted before
        rw [namedIds, List.flatMap_nil, List.append_nil]
        exact before
    | cons entry rest induction =>
        intro ids emitted before
        rw [namedIds, List.flatMap_cons, ← namedIds, ← List.append_assoc, List.foldl_cons]
        apply induction
        have membership := before.emitRow named (some entry.1)
        dsimp only
        split
        · next same =>
            apply membership.congr
            intro id
            simp [same]
        · have entity := membership.emitRow named entry.2
          rw [List.append_assoc] at entity
          exact entity
  have start : Emitted byId [] ([], []) := ⟨by simp, by simp, List.nodup_nil⟩
  exact ⟨_, general taken [] ([], []) start⟩

def membershipPair (row : Row) : String × Option String := (row.id, row.entityId)

/-- The rows a window of memberships ships for itself and the entities it names. -/
def namedRows (log : OrderedMap String Row) (window : List Row) : List Row :=
  membershipRows (liveAmong log (namedIds (window.map membershipPair))) (window.map membershipPair)

def names (window : List Row) (id : String) : Bool :=
  window.any fun row => row.id = id || row.entityId = some id

theorem mem_namedIds {window : List Row} :
    some id ∈ namedIds (window.map membershipPair) ↔ names window id = true := by
  rw [namedIds, List.flatMap_map, List.mem_flatMap, names, List.any_eq_true]
  apply exists_congr
  intro row
  apply and_congr_right
  intro _
  rw [List.mem_pair, Bool.or_eq_true, decide_eq_true_eq, decide_eq_true_eq]
  exact or_congr ⟨fun same => (Option.some.inj same).symm, fun same => congrArg some same.symm⟩ eq_comm

theorem liveAmong_eq_some :
    liveAmong log ids id = some row ↔ some id ∈ ids ∧ liveRow log id = some row := by
  rw [liveAmong]
  split
  · next listed => exact ⟨fun found => ⟨listed, found⟩, fun both => both.2⟩
  · next unlisted => exact ⟨nofun, fun both => absurd both.1 unlisted⟩

theorem liveAmong_named (named : Named log) (ids : List (Option String)) :
    ∀ id row, liveAmong log ids id = some row → row.id = id :=
  fun _ _ found => ((liveRow_eq_some named).mp (liveAmong_eq_some.mp found).2).2.1

theorem mem_namedRows (named : Named log) (window : List Row) (row : Row) :
    row ∈ namedRows log window ↔ names window row.id = true ∧ liveRow log row.id = some row := by
  rcases emitted_membershipRows (liveAmong_named named (namedIds (window.map membershipPair)))
    (window.map membershipPair) with ⟨seen, emitted⟩
  rw [namedRows, emitted.rows, liveAmong_eq_some, mem_namedIds, and_self_left]

theorem nodup_namedRows (named : Named log) (window : List Row) :
    ((namedRows log window).map Row.id).Nodup := by
  rcases emitted_membershipRows (liveAmong_named named (namedIds (window.map membershipPair)))
    (window.map membershipPair) with ⟨seen, emitted⟩
  exact emitted.nodup

/-! ## Relationships -/

/-- The ids of the relationships whose source the window names. -/
def windowIds (log : OrderedMap String Row) (window : List Row) : List String :=
  window.flatMap fun membership => ((relationshipsOf log).filter fun row =>
    row.sourceId.isSome && row.sourceId = membership.entityId).map Row.id

/-- The rows a window of memberships ships for the relationships of its entities. -/
def linkedRows (log : OrderedMap String Row) (window : List Row) : List Row :=
  ((windowIds log window).eraseDups.filterMap
    (typedRow (liveAmong log ((windowIds log window).eraseDups.map some)) "relationship")).filter
      fun row => row.sourceId.any fun source => source ∈ pageSources (window.map membershipPair)
        (liveAmong log (namedIds (window.map membershipPair)))

def links (log : OrderedMap String Row) (window : List Row) (row : Row) : Bool :=
  row.type = "relationship" && row.sourceId.any fun source =>
    (liveRow log source).isSome && window.any fun membership => membership.entityId = some source

theorem mem_relationshipsOf : row ∈ relationshipsOf log ↔
    row ∈ rowsOf log ∧ row.type = "relationship" ∧ row.deleted = false := by
  rw [relationshipsOf, Keyset.mem_ordered, List.mem_filter]
  simp

theorem mem_windowIds {window : List Row} : id ∈ windowIds log window ↔
    ∃ row ∈ relationshipsOf log, row.id = id ∧ ∃ source, row.sourceId = some source ∧
      ∃ membership ∈ window, membership.entityId = some source := by
  rw [windowIds, List.mem_flatMap]
  constructor
  · rintro ⟨membership, inWindow, listed⟩
    rcases List.mem_map.mp listed with ⟨row, kept, rfl⟩
    rw [List.mem_filter, Bool.and_eq_true, decide_eq_true_eq] at kept
    rcases kept with ⟨related, present, same⟩
    rcases Option.isSome_iff_exists.mp present with ⟨source, found⟩
    exact ⟨row, related, rfl, source, found, membership, inWindow, same ▸ found⟩
  · rintro ⟨row, related, rfl, source, found, membership, inWindow, names⟩
    refine ⟨membership, inWindow, List.mem_map_of_mem (List.mem_filter.mpr ⟨related, ?_⟩)⟩
    rw [found, names]
    simp

theorem mem_pageSources {window : List Row} {source : String} :
    source ∈ pageSources (window.map membershipPair)
        (liveAmong log (namedIds (window.map membershipPair))) ↔
      (liveRow log source).isSome = true ∧ ∃ membership ∈ window, membership.entityId = some source := by
  rw [pageSources, List.mem_filter, List.filterMap_map, List.mem_filterMap, and_comm]
  constructor
  · rintro ⟨live, membership, inWindow, found⟩
    rcases Option.isSome_iff_exists.mp live with ⟨row, isLive⟩
    exact ⟨Option.isSome_iff_exists.mpr ⟨row, (liveAmong_eq_some.mp isLive).2⟩, membership, inWindow,
      found⟩
  · rintro ⟨live, membership, inWindow, found⟩
    rcases Option.isSome_iff_exists.mp live with ⟨row, isLive⟩
    refine ⟨Option.isSome_iff_exists.mpr ⟨row, liveAmong_eq_some.mpr ⟨?_, isLive⟩⟩, membership,
      inWindow, found⟩
    rw [mem_namedIds, names, List.any_eq_true]
    exact ⟨membership, inWindow, by simp [found]⟩

theorem typedRow_eq_some :
    typedRow byId type id = some row ↔ byId id = some row ∧ row.type = type := by
  rw [typedRow, Option.filter_eq_some_iff, decide_eq_true_eq]

theorem mem_linkedRows (named : Named log) (window : List Row) (row : Row) :
    row ∈ linkedRows log window ↔
      links log window row = true ∧ liveRow log row.id = some row := by
  rw [linkedRows, List.mem_filter, List.mem_filterMap]
  constructor
  · rintro ⟨⟨id, _, found⟩, sourced⟩
    rcases typedRow_eq_some.mp found with ⟨among, related⟩
    have live := (liveAmong_eq_some.mp among).2
    have same := ((liveRow_eq_some named).mp live).2.1
    refine ⟨?_, same ▸ live⟩
    rcases (Option.any_eq_true _ _).mp sourced with ⟨source, isSource, listed⟩
    rcases mem_pageSources.mp (of_decide_eq_true listed) with ⟨present, membership, inWindow, names⟩
    rw [links, related, isSource]
    simp only [decide_true, Bool.true_and, Option.any_some, present]
    exact List.any_eq_true.mpr ⟨membership, inWindow, decide_eq_true names⟩
  · rintro ⟨linked, live⟩
    rw [links, Bool.and_eq_true, decide_eq_true_eq] at linked
    rcases (Option.any_eq_true _ _).mp linked.2 with ⟨source, isSource, named'⟩
    rw [Bool.and_eq_true, List.any_eq_true] at named'
    rcases named' with ⟨present, membership, inWindow, names⟩
    have names := of_decide_eq_true names
    rcases (liveRow_eq_some named).mp live with ⟨logged, _, alive⟩
    have listed : row.id ∈ windowIds log window :=
      mem_windowIds.mpr ⟨row, mem_relationshipsOf.mpr ⟨logged, linked.1, alive⟩, rfl, source, isSource,
        membership, inWindow, names⟩
    have once := List.mem_eraseDups.mpr listed
    refine ⟨⟨row.id, once, typedRow_eq_some.mpr ⟨liveAmong_eq_some.mpr ⟨?_, live⟩, linked.1⟩⟩, ?_⟩
    · exact List.mem_map_of_mem once
    · rw [isSource]
      exact decide_eq_true (mem_pageSources.mpr ⟨present, membership, inWindow, names⟩)

theorem nodup_linkedRows (named : Named log) (window : List Row) :
    ((linkedRows log window).map Row.id).Nodup := by
  have general {byId : String → Option Row} (back : ∀ id row, byId id = some row → row.id = id)
      {ids : List String} (nodup : ids.Nodup) : ((ids.filterMap byId).map Row.id).Nodup := by
    have kept : (ids.filterMap byId).map Row.id = ids.filter fun id => (byId id).isSome := by
      clear nodup
      induction ids with
      | nil => rfl
      | cons id rest induction =>
          cases found : byId id with
          | none =>
              rw [List.filterMap_cons_none found, List.filter_cons_of_neg (by simp [found]), induction]
          | some row =>
              rw [List.filterMap_cons_some found, List.filter_cons_of_pos (by simp [found]),
                List.map_cons, back id row found, induction]
    rw [kept]
    exact nodup.filter _
  have typed : ∀ id row, typedRow (liveAmong log ((windowIds log window).eraseDups.map some))
      "relationship" id = some row → row.id = id :=
    fun id row found => liveAmong_named named _ id row (typedRow_eq_some.mp found).1
  exact (general typed (nodup_eraseDups _)).sublist (List.filter_sublist.map Row.id)

end Ebb.Sync.GroupListing
