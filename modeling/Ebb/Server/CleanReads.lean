import Ebb.Server.WriterSteps

namespace Ebb.Server

namespace StorageTree

/-! Reads of the entity cache against the commits they race with. One mark stands
for every reason an entity is dirty, so the danger is a step that removes it for
one reason while another still holds. -/

/-- A read that started after an Action became durable returns no row below it. -/
def NoStaleRead (s : StorageTree) : Prop :=
  ∀ reader ∈ s.readers, ∀ lastGsn, reader.phase = .returned (some lastGsn) →
    ∀ gsn ∈ reader.durableBefore, gsn ≤ lastGsn

/-! ## The condition -/

def Landed (s : StorageTree) (batch : Batch) : Prop :=
  batch.phase ≠ .prepared ∧ batch.ref ∉ s.jobs.map Job.ref

/-- The cached row of an entity reflects every durable Action touching it. -/
def UpToDate (s : StorageTree) (entity : String) : Prop :=
  ∀ gsn ∈ entityGsns s.entityActions entity, gsn ≤ (s.rows entity).getD 0

/-- The batch whose provisional marks a step of the Writer clears. -/
def clearedBatch (s : StorageTree) : Event → Option Batch
  | .abandon ref | .reject ref => CommitPipeline.get? s.batches ref
  | .rebuild =>
      match s.task with
      | .rebuilding (ref :: _) => CommitPipeline.get? s.batches ref
      | _ => none
  | _ => none

/-- The entity whose settled mark a reader's compare-and-clear removes. -/
def clearedEntity (s : StorageTree) : Event → Option String
  | .advanceRead index =>
      match s.readers[index]? with
      | some { entity, phase := .written (some (.settled generation)) _, .. } =>
          if s.marks entity = some (.settled generation) then some entity else none
      | _ => none
  | _ => none

/-- Every write lands while its batch is open; the Writer clears the marks of a batch
only before its write landed, and of an entity only when the cached row is up to date
and no other open batch touches it; a reader clears a mark only when no open batch
touches the entity. -/
def MarksKept (s : StorageTree) (event : Event) : Prop :=
  (∀ job ∈ s.landingJobs event, CommitPipeline.get? s.batches job.ref ≠ none) ∧
  (∀ batch ∈ s.clearedBatch event, ¬ s.Landed batch ∧ ∀ entity ∈ batch.entities,
    s.marks entity = some (.pending batch.generation) →
      s.UpToDate entity ∧ ∀ other ∈ s.batches, other.ref ≠ batch.ref →
        entity ∉ other.entities) ∧
  (∀ entity ∈ s.clearedEntity event, ∀ batch ∈ s.batches, entity ∉ batch.entities)

instance (s : StorageTree) (batch : Batch) : Decidable (s.Landed batch) :=
  inferInstanceAs (Decidable (_ ∧ _))

instance (s : StorageTree) (entity : String) : Decidable (s.UpToDate entity) :=
  inferInstanceAs (Decidable (∀ gsn ∈ entityGsns s.entityActions entity, _))

instance (s : StorageTree) (event : Event) : Decidable (s.MarksKept event) :=
  inferInstanceAs (Decidable (_ ∧ _ ∧ _))

/-! ## The invariant -/

/-- An open batch whose write landed is still to settle the entity's mark. -/
def Unapplied (s : StorageTree) (entity : String) : Prop :=
  ∃ batch ∈ s.batches, entity ∈ batch.entities ∧ s.Landed batch

/-- What a read knows in each phase. The last part of the later phases says why the
clear at the end is safe while the mark it observed is still in place. -/
def ReaderSafe (s : StorageTree) (reader : Reader) : Prop :=
  match reader.phase with
  | .started | .dirty | .observed _ =>
      ∀ gsn ∈ reader.durableBefore, gsn ∈ entityGsns s.entityActions reader.entity
  | .clean => ∀ gsn ∈ reader.durableBefore, gsn ≤ (s.rows reader.entity).getD 0
  | .fetched _ row =>
      (∀ gsn ∈ reader.durableBefore, gsn ∈ entityGsns s.entityActions reader.entity) ∧
        row.getD 0 ≤ (s.rows reader.entity).getD 0
  | .scanned mark row gsns =>
      (∀ gsn ∈ reader.durableBefore, gsn ≤ row.getD 0 ∨ gsn ∈ gsns) ∧
        (∀ gsn ∈ gsns, row.getD 0 < gsn) ∧
        row.getD 0 ≤ (s.rows reader.entity).getD 0 ∧
        (DirtyTracker.isPending mark = false → mark ≠ none → s.marks reader.entity = mark →
          s.Unapplied reader.entity ∨
            ∀ gsn ∈ entityGsns s.entityActions reader.entity, gsn ≤ row.getD 0 ∨ gsn ∈ gsns)
  | .written mark result =>
      (∀ gsn ∈ reader.durableBefore, gsn ≤ result.getD 0) ∧
        (DirtyTracker.isPending mark = false → mark ≠ none → s.marks reader.entity = mark →
          s.Unapplied reader.entity ∨ s.UpToDate reader.entity)
  | .returned result => ∀ gsn ∈ reader.durableBefore, gsn ≤ result.getD 0

def ReaderPhase.mark : ReaderPhase → Option Mark
  | .observed mark | .fetched mark _ | .scanned mark _ _ | .written mark _ => mark
  | _ => none

/-- The batch whose marks are cleared and not yet placed again. -/
def remarkingRef (s : StorageTree) : Option Nat :=
  match s.task with
  | .remarking ref _ => some ref
  | _ => none

structure CleanSafe (s : StorageTree) : Prop where
  generations : ∀ entity generation, s.marks entity = some (.settled generation) →
    generation < s.nextGeneration
  observed : ∀ reader ∈ s.readers, ∀ generation,
    ReaderPhase.mark reader.phase = some (.settled generation) →
      generation < s.nextGeneration
  marked : ∀ batch ∈ s.batches, s.remarkingRef ≠ some batch.ref →
    ∀ entity ∈ batch.entities, s.marks entity ≠ none
  covered : ∀ entity, s.marks entity = none → s.UpToDate entity
  readers : ∀ reader ∈ s.readers, s.ReaderSafe reader

theorem cleanSafe_initial : CleanSafe .initial := by
  constructor <;> simp [initial, UpToDate, entityGsns]

/-! ## Frame -/

/-- What a step must respect for the reads it does not advance: rows and the index only
grow, and a settled mark that was observed before the step is still backed by the same
reason. -/
structure Respects (s next : StorageTree) : Prop where
  rows : ∀ entity, (s.rows entity).getD 0 ≤ (next.rows entity).getD 0
  index : ∀ entity, entityGsns s.entityActions entity ⊆ entityGsns next.entityActions entity
  settled : ∀ entity generation, generation < s.nextGeneration →
    next.marks entity = some (.settled generation) →
      s.marks entity = some (.settled generation) ∧
      (s.Unapplied entity → next.Unapplied entity) ∧
      ∀ gsn ∈ entityGsns next.entityActions entity,
        gsn ∈ entityGsns s.entityActions entity ∨ next.Unapplied entity

private theorem settled_of_not_pending {mark : Option Mark}
    (settled : DirtyTracker.isPending mark = false) (present : mark ≠ none) :
    ∃ generation, mark = some (.settled generation) := by
  rcases mark with - | (generation | generation)
  · exact absurd rfl present
  · exact ⟨generation, rfl⟩
  · cases settled

variable {s next : StorageTree} {reader : Reader} {batch : Batch} {entity : String}
  {entities : List String} {marks : DirtyTracker.Marks} {phase : ReaderPhase}
  {rows : String → Option Nat}

theorem ReaderSafe.respects (safe : s.ReaderSafe reader) (respects : Respects s next)
    (old : ∀ generation, ReaderPhase.mark reader.phase = some (.settled generation) →
      generation < s.nextGeneration)
    : next.ReaderSafe reader := by
  have index := fun gsn => @respects.index reader.entity gsn
  have rows := respects.rows reader.entity
  have reason : ∀ {mark : Option Mark}, ReaderPhase.mark reader.phase = mark →
      DirtyTracker.isPending mark = false → mark ≠ none → next.marks reader.entity = mark →
      ∀ {P : Nat → Prop},
        (s.marks reader.entity = mark → s.Unapplied reader.entity ∨
          ∀ gsn ∈ entityGsns s.entityActions reader.entity, P gsn) →
        next.Unapplied reader.entity ∨
          ∀ gsn ∈ entityGsns next.entityActions reader.entity, P gsn := by
    intro mark same settled present stored P before
    obtain ⟨generation, rfl⟩ := settled_of_not_pending settled present
    obtain ⟨kept, unapplied, added⟩ :=
      respects.settled reader.entity generation (old generation same) stored
    rcases before kept with waiting | covered
    · exact .inl (unapplied waiting)
    · by_cases waiting : next.Unapplied reader.entity
      · exact .inl waiting
      · exact .inr fun gsn member => covered gsn ((added gsn member).resolve_right waiting)
  unfold ReaderSafe at safe ⊢
  cases phase : reader.phase with
  | started =>
      simp only [phase] at safe ⊢
      exact fun gsn member => index gsn (safe gsn member)
  | clean =>
      simp only [phase] at safe ⊢
      exact fun gsn member => Nat.le_trans (safe gsn member) rows
  | dirty =>
      simp only [phase] at safe ⊢
      exact fun gsn member => index gsn (safe gsn member)
  | observed mark =>
      simp only [phase] at safe ⊢
      exact fun gsn member => index gsn (safe gsn member)
  | fetched mark row =>
      simp only [phase] at safe ⊢
      exact ⟨fun gsn member => index gsn (safe.1 gsn member), Nat.le_trans safe.2 rows⟩
  | scanned mark row gsns =>
      simp only [phase] at safe ⊢
      obtain ⟨before, newer, cached, cover⟩ := safe
      refine ⟨before, newer, Nat.le_trans cached rows, fun settled present stored => ?_⟩
      exact reason (by rw [phase]; rfl) settled present stored (cover settled present)
  | written mark result =>
      simp only [phase] at safe ⊢
      refine ⟨safe.1, fun settled present stored => ?_⟩
      have after := reason (by rw [phase]; rfl) settled present stored
        (safe.2 settled present)
      exact after.imp_right fun covered gsn member =>
        Nat.le_trans (covered gsn member) rows
  | returned result =>
      simp only [phase] at safe ⊢
      exact safe

theorem CleanSafe.of_respects (safe : CleanSafe s) (respects : Respects s next)
    (readers : next.readers = s.readers) (generation : s.nextGeneration ≤ next.nextGeneration)
    (generations : ∀ entity generation, next.marks entity = some (.settled generation) →
      generation < next.nextGeneration)
    (marked : ∀ batch ∈ next.batches, next.remarkingRef ≠ some batch.ref →
      ∀ entity ∈ batch.entities, next.marks entity ≠ none)
    (covered : ∀ entity, next.marks entity = none → next.UpToDate entity) :
    CleanSafe next where
  generations := generations
  observed reader member number same :=
    Nat.lt_of_lt_of_le (safe.observed reader (readers ▸ member) number same) generation
  marked := marked
  covered := covered
  readers reader member :=
    (safe.readers reader (readers ▸ member)).respects respects
      (safe.observed reader (readers ▸ member))

theorem CleanSafe.relabel (safe : CleanSafe s) (marks : next.marks = s.marks)
    (rows : next.rows = s.rows) (index : next.entityActions = s.entityActions)
    (readers : next.readers = s.readers) (generation : next.nextGeneration = s.nextGeneration)
    (marked : ∀ batch ∈ next.batches, next.remarkingRef ≠ some batch.ref →
      ∀ entity ∈ batch.entities, s.marks entity ≠ none)
    (unapplied : ∀ entity, s.Unapplied entity → next.Unapplied entity) : CleanSafe next := by
  have respects : Respects s next := by
    constructor
    · intro entity
      exact Nat.le_of_eq (by rw [rows])
    · intro entity
      rw [index]
      exact List.Subset.refl _
    · intro entity number _ stored
      rw [marks] at stored
      rw [index]
      exact ⟨stored, unapplied entity, fun gsn member => .inl member⟩
  refine safe.of_respects respects readers (Nat.le_of_eq generation.symm) ?_ ?_ ?_
  · rw [marks, generation]
    exact safe.generations
  · rw [marks]
    exact marked
  · intro entity
    rw [UpToDate, marks, rows, index]
    exact safe.covered entity

/-! ## Steps of the Writer and the pool -/

theorem entities_eq {old : Batch} (same : batch.prepared = old.prepared) :
    batch.entities = old.entities :=
  congrArg (List.flatMap PreparedAction.affectedEntities) same

theorem mem_entityGsns_write {job : Job} {gsn : Nat}
    (member : gsn ∈ entityGsns (s.write job).entityActions entity) :
    gsn ∈ entityGsns s.entityActions entity ∨
      entity ∈ job.prepared.flatMap PreparedAction.affectedEntities := by
  obtain ⟨row, kept, rfl⟩ := List.mem_map.mp member
  obtain ⟨listed, same⟩ := List.mem_filter.mp kept
  rcases List.mem_append.mp listed with old | new
  · exact .inl (List.mem_map.mpr ⟨row, List.mem_filter.mpr ⟨old, same⟩, rfl⟩)
  · obtain ⟨entry, inRange, rows⟩ := List.mem_flatMap.mp new
    obtain ⟨touched, affected, rfl⟩ := List.mem_map.mp rows
    have equal : touched = entity := by simpa using same
    exact .inr (List.mem_flatMap.mpr ⟨entry.2, (mem_gsnEntries inRange).1, equal ▸ affected⟩)

theorem entityGsns_write_subset (s : StorageTree) (job : Job) (entity : String) :
    entityGsns s.entityActions entity ⊆ entityGsns (s.write job).entityActions entity := by
  intro gsn member
  obtain ⟨row, kept, rfl⟩ := List.mem_map.mp member
  obtain ⟨listed, same⟩ := List.mem_filter.mp kept
  exact List.mem_map.mpr
    ⟨row, List.mem_filter.mpr ⟨List.mem_append_left _ listed, same⟩, rfl⟩

private theorem clearPending_settled {generation number : Nat} :
    DirtyTracker.clearPendingBatch entities generation marks entity = some (.settled number) ↔
      marks entity = some (.settled number) := by
  simp only [DirtyTracker.clearPendingBatch]
  split
  · next cleared => simp [cleared.2]
  · rfl

private theorem clearPending_none {generation : Nat}
    (cleared : DirtyTracker.clearPendingBatch entities generation marks entity = none) :
    marks entity = none ∨
      (entity ∈ entities ∧ marks entity = some (.pending generation)) := by
  simp only [DirtyTracker.clearPendingBatch] at cleared
  split at cleared
  · next holds => exact .inr holds
  · exact .inl cleared

private theorem insertMarks_settled {mark : Mark} {number : Nat}
    (stored : DirtyTracker.insertMarks entities mark marks entity = some (.settled number)) :
    (entity ∈ entities ∧ mark = .settled number) ∨
      (entity ∉ entities ∧ marks entity = some (.settled number)) := by
  simp only [DirtyTracker.insertMarks] at stored
  split at stored
  · next touched => exact .inl ⟨touched, Option.some.inj stored⟩
  · next untouched => exact .inr ⟨untouched, stored⟩

private theorem insertMarks_none {mark : Mark}
    (absent : DirtyTracker.insertMarks entities mark marks entity = none) :
    entity ∉ entities ∧ marks entity = none := by
  simp only [DirtyTracker.insertMarks] at absent
  split at absent
  · cases absent
  · next untouched => exact ⟨untouched, absent⟩

private theorem CleanSafe.claim (safe : CleanSafe s) {fresh : List PreparedAction}
    (notRemarking : s.remarkingRef = none)
    (marks : next.marks = DirtyTracker.markPendingBatch (s.claimedBatch fresh).entities
      s.nextGeneration s.marks)
    (generation : next.nextGeneration = s.nextGeneration + 1)
    (batches : next.batches = s.batches ++ [s.claimedBatch fresh]) (rows : next.rows = s.rows)
    (index : next.entityActions = s.entityActions) (readers : next.readers = s.readers)
    (jobs : next.jobs = s.jobs) : CleanSafe next := by
  have respects : Respects s next := by
    constructor
    · exact fun entity => Nat.le_of_eq (by rw [rows])
    · exact fun entity => index ▸ List.Subset.refl _
    · intro entity number _ stored
      rw [marks] at stored
      rcases insertMarks_settled stored with ⟨-, impossible⟩ | ⟨-, kept⟩
      · cases impossible
      · refine ⟨kept, ?_, fun gsn member => .inl (index ▸ member)⟩
        rintro ⟨batch, member, touched, landed⟩
        refine ⟨batch, batches ▸ List.mem_append_left _ member, touched, ?_⟩
        rw [Landed, jobs]
        exact landed
  refine safe.of_respects respects readers (by omega) ?_ ?_ ?_
  · intro entity number stored
    rw [marks] at stored
    rcases insertMarks_settled stored with ⟨-, impossible⟩ | ⟨-, kept⟩
    · cases impossible
    · have older := safe.generations entity number kept
      omega
  · intro batch member _ entity touched absent
    rw [marks] at absent
    obtain ⟨untouched, unmarked⟩ := insertMarks_none absent
    rw [batches] at member
    rcases List.mem_append.mp member with old | new
    · exact safe.marked batch old (by simp [notRemarking]) entity touched unmarked
    · rw [List.mem_singleton.mp new] at touched
      exact untouched touched
  · intro entity absent
    rw [marks] at absent
    rw [UpToDate, rows, index]
    exact safe.covered entity (insertMarks_none absent).2

private theorem CleanSafe.land (safe : CleanSafe s) (tidy : Tidy s) {job : Job}
    (member : job ∈ s.jobs) (open_ : CommitPipeline.get? s.batches job.ref ≠ none) :
    CleanSafe { s.write job with
      jobs := s.jobs.filter fun other => other.ref ≠ job.ref
      acks := job.ref :: s.acks } := by
  obtain ⟨batch, found⟩ := Option.ne_none_iff_exists'.mp open_
  obtain ⟨inBatches, same⟩ := CommitPipeline.get?_spec found
  obtain ⟨committing, prepared, -⟩ := tidy.jobBatch job member batch inBatches same
  have landedAfter : ∀ other : Batch, s.Landed other ∨ other = batch →
      other.phase ≠ .prepared ∧
        other.ref ∉ (s.jobs.filter fun other => other.ref ≠ job.ref).map Job.ref := by
    rintro other (landed | rfl)
    · refine ⟨landed.1, fun listed => landed.2 ?_⟩
      obtain ⟨kept, inKept, ref⟩ := List.mem_map.mp listed
      exact List.mem_map.mpr ⟨kept, List.mem_of_mem_filter inKept, ref⟩
    · refine ⟨by simp [committing], fun listed => ?_⟩
      obtain ⟨kept, inKept, ref⟩ := List.mem_map.mp listed
      have different : kept.ref ≠ job.ref := by simpa using (List.mem_filter.mp inKept).2
      exact different (ref.trans same)
  have touches : ∀ {entity : String},
      entity ∈ job.prepared.flatMap PreparedAction.affectedEntities →
      entity ∈ batch.entities := by
    intro entity listed
    rw [Batch.entities, prepared]
    exact listed
  refine safe.of_respects ⟨fun _ => Nat.le_refl _, entityGsns_write_subset s job, ?_⟩ rfl
    (Nat.le_refl _) safe.generations safe.marked ?_
  · intro entity number _ stored
    refine ⟨stored, ?_, ?_⟩
    · rintro ⟨other, otherOpen, touched, landed⟩
      exact ⟨other, otherOpen, touched, landedAfter other (.inl landed)⟩
    · intro gsn added
      refine (mem_entityGsns_write added).imp_right fun touched => ?_
      exact ⟨batch, inBatches, touches touched, landedAfter batch (.inr rfl)⟩
  · intro entity absent gsn added
    rcases mem_entityGsns_write added with old | touched
    · exact safe.covered entity absent gsn old
    · refine absurd absent (safe.marked batch inBatches ?_ entity (touches touched))
      intro remarking
      have queued : batch.ref ∈ s.task.refs := by
        unfold remarkingRef at remarking
        split at remarking
        · next ref refs task =>
            rw [task, ← Option.some.inj remarking]
            exact List.mem_cons_self
        · cases remarking
      have stillPrepared := tidy.rebuildPrepared batch.ref queued batch inBatches rfl
      exact absurd (committing.symm.trans stillPrepared) (by decide)

private theorem CleanSafe.clear (safe : CleanSafe s) (notRemarking : s.remarkingRef = none)
    (condition : ¬ s.Landed batch ∧ ∀ entity ∈ batch.entities, s.marks entity =
      some (.pending batch.generation) → s.UpToDate entity ∧ ∀ other ∈ s.batches,
      other.ref ≠ batch.ref → entity ∉ other.entities)
    (marks : next.marks = DirtyTracker.clearPendingBatch batch.entities batch.generation s.marks)
    (generation : next.nextGeneration = s.nextGeneration) (rows : next.rows = s.rows)
    (index : next.entityActions = s.entityActions) (readers : next.readers = s.readers)
    (others : ∀ other ∈ next.batches, other ∈ s.batches)
    (remaining : ∀ other ∈ next.batches, next.remarkingRef ≠ some other.ref → other.ref ≠ batch.ref)
    (landed : ∀ other ∈ s.batches, s.Landed other → other ∈ next.batches ∧ next.Landed other) :
    CleanSafe next := by
  have respects : Respects s next := by
    constructor
    · exact fun entity => Nat.le_of_eq (by rw [rows])
    · exact fun entity => index ▸ List.Subset.refl _
    · intro entity number _ stored
      rw [marks, clearPending_settled] at stored
      refine ⟨stored, ?_, fun gsn member => .inl (index ▸ member)⟩
      rintro ⟨other, member, touched, hasLanded⟩
      have after := landed other member hasLanded
      exact ⟨other, after.1, touched, after.2⟩
  refine safe.of_respects respects readers (Nat.le_of_eq generation.symm) ?_ ?_ ?_
  · intro entity number stored
    rw [marks, clearPending_settled] at stored
    rw [generation]
    exact safe.generations entity number stored
  · intro other member notCleared entity touched absent
    rw [marks] at absent
    have inOld := others other member
    rcases clearPending_none absent with unmarked | ⟨cleared, pending⟩
    · exact safe.marked other inOld (by simp [notRemarking]) entity touched unmarked
    · exact (condition.2 entity cleared pending).2 other inOld
        (remaining other member notCleared) touched
  · intro entity absent
    rw [marks] at absent
    rw [UpToDate, rows, index]
    rcases clearPending_none absent with unmarked | ⟨cleared, pending⟩
    · exact safe.covered entity unmarked
    · exact (condition.2 entity cleared pending).1

private theorem CleanSafe.apply (safe : CleanSafe s) {rest : List Batch}
    (notRemarking : s.remarkingRef = none) (oldest : s.batches = batch :: rest)
    (marks : next.marks = DirtyTracker.markDirtyBatch batch.entities s.nextGeneration s.marks)
    (generation : next.nextGeneration = s.nextGeneration + 1) (batches : next.batches = rest)
    (rows : next.rows = s.rows) (index : next.entityActions = s.entityActions)
    (readers : next.readers = s.readers) (jobs : next.jobs = s.jobs) : CleanSafe next := by
  have respects : Respects s next := by
    constructor
    · exact fun entity => Nat.le_of_eq (by rw [rows])
    · exact fun entity => index ▸ List.Subset.refl _
    · intro entity number older stored
      rw [marks] at stored
      rcases insertMarks_settled stored with ⟨-, fresh⟩ | ⟨untouched, kept⟩
      · exact absurd (Mark.settled.inj fresh).symm (Nat.ne_of_lt older)
      · refine ⟨kept, ?_, fun gsn member => .inl (index ▸ member)⟩
        rintro ⟨other, member, touched, landed⟩
        rw [oldest] at member
        rcases List.mem_cons.mp member with equal | later
        · exact absurd (equal ▸ touched) untouched
        · refine ⟨other, batches ▸ later, touched, ?_⟩
          rw [Landed, jobs]
          exact landed
  refine safe.of_respects respects readers (by omega) ?_ ?_ ?_
  · intro entity number stored
    rw [marks] at stored
    rcases insertMarks_settled stored with ⟨-, fresh⟩ | ⟨-, kept⟩
    · have equal := Mark.settled.inj fresh
      omega
    · have older := safe.generations entity number kept
      omega
  · intro other member _ entity touched absent
    rw [marks] at absent
    have inOld : other ∈ s.batches := oldest ▸ List.mem_cons_of_mem _ (batches ▸ member)
    exact safe.marked other inOld (by simp [notRemarking]) entity touched
      (insertMarks_none absent).2
  · intro entity absent
    rw [marks] at absent
    rw [UpToDate, rows, index]
    exact safe.covered entity (insertMarks_none absent).2

private theorem CleanSafe.rebuildMark (safe : CleanSafe s) (tidy : Tidy s) {refs : List Nat}
    (remarking : s.task = .remarking batch.ref refs) (member : batch ∈ s.batches) :
    CleanSafe { s with
      marks := DirtyTracker.markPendingBatch batch.entities s.nextGeneration s.marks
      nextGeneration := s.nextGeneration + 1
      batches := s.batches.map fun other =>
        if other.ref = batch.ref then { other with generation := s.nextGeneration } else other
      task := .rebuilding refs } := by
  refine safe.of_respects ⟨fun _ => Nat.le_refl _, fun _ => List.Subset.refl _, ?_⟩ rfl
    (Nat.le_succ _) ?_ ?_ ?_
  · intro entity number _ stored
    rcases insertMarks_settled stored with ⟨-, impossible⟩ | ⟨-, kept⟩
    · cases impossible
    · refine ⟨kept, ?_, fun gsn listed => .inl listed⟩
      rintro ⟨other, inOld, touched, landed⟩
      refine ⟨_, List.mem_map.mpr ⟨other, inOld, rfl⟩, ?_, ?_⟩
      · split <;> exact touched
      · split <;> exact landed
  · intro entity number stored
    rcases insertMarks_settled stored with ⟨-, impossible⟩ | ⟨-, kept⟩
    · cases impossible
    · exact Nat.lt_succ_of_lt (safe.generations entity number kept)
  · intro other inBatches _ entity touched absent
    obtain ⟨untouched, unmarked⟩ := insertMarks_none absent
    obtain ⟨old, inOld, rfl⟩ := List.mem_map.mp inBatches
    by_cases same : old.ref = batch.ref
    · rw [if_pos same, tidy.eq_of_ref inOld member same] at touched
      exact untouched touched
    · rw [if_neg same] at touched
      have notRemarking : s.remarkingRef ≠ some old.ref := by
        simp only [remarkingRef, remarking, ne_eq, Option.some.injEq]
        exact fun equal => same equal.symm
      exact safe.marked old inOld notRemarking entity touched unmarked
  · intro entity absent
    exact safe.covered entity (insertMarks_none absent).2

/-! ## Steps of a read -/

theorem upsertRow_spec (entity : String) (lastGsn : Nat) (rows : String → Option Nat) :
    lastGsn ≤ (upsertRow entity lastGsn rows entity).getD 0 ∧
      ∀ other, (rows other).getD 0 ≤ (upsertRow entity lastGsn rows other).getD 0 := by
  have own : lastGsn ≤ (upsertRow entity lastGsn rows entity).getD 0 ∧
      (rows entity).getD 0 ≤ (upsertRow entity lastGsn rows entity).getD 0 := by
    rw [upsertRow, if_pos rfl]
    cases rows entity with
    | none => simp
    | some existing =>
        dsimp only
        split <;> simp <;> omega
  refine ⟨own.1, fun other => ?_⟩
  by_cases same : other = entity
  · rw [same]
    exact own.2
  · have kept : upsertRow entity lastGsn rows other = rows other := if_neg same
    exact Nat.le_of_eq (congrArg (·.getD 0) kept).symm

theorem readStep_rows (stepped : s.readStep reader = some (phase, rows, marks)) (entity : String) :
    (s.rows entity).getD 0 ≤ (rows entity).getD 0 := by
  unfold readStep at stepped
  split at stepped
  case h_6 mark row gsns _ =>
    split at stepped
    · cases stepped
      exact Nat.le_refl _
    · cases stepped
      exact (upsertRow_spec _ _ _).2 entity
  all_goals cases stepped <;> exact Nat.le_refl _

theorem readStep_marks (stepped : s.readStep reader = some (phase, rows, marks)) :
    marks = s.marks ∨ ∃ mark result, reader.phase = .written mark result ∧
      DirtyTracker.isPending mark = false ∧ rows = s.rows ∧
      marks = DirtyTracker.clearDirty reader.entity mark s.marks := by
  unfold readStep at stepped
  split at stepped
  case h_6 mark row gsns _ =>
    split at stepped <;> cases stepped <;> exact .inl rfl
  case h_7 mark result written =>
    cases stepped
    by_cases pending : DirtyTracker.isPending mark = true
    · exact .inl (if_pos pending)
    · exact .inr ⟨mark, result, written, by simpa using pending, rfl, if_neg pending⟩
  all_goals cases stepped <;> exact .inl rfl

theorem readStep_safe (safe : CleanSafe s) (readerSafe : s.ReaderSafe reader)
    (stepped : s.readStep reader = some (phase, next.rows, next.marks))
    (index : next.entityActions = s.entityActions)
    (unapplied : ∀ entity, s.Unapplied entity → next.Unapplied entity) :
    next.ReaderSafe { reader with phase } := by
  unfold ReaderSafe at readerSafe
  unfold readStep at stepped
  split at stepped
  case h_1 started =>
    simp only [started] at readerSafe
    simp only [Option.some.injEq, Prod.mk.injEq] at stepped
    obtain ⟨rfl, rows, -⟩ := stepped
    by_cases clean : s.marks reader.entity = none
    · simp only [ReaderSafe, clean, if_true, ← rows]
      exact fun gsn member => safe.covered reader.entity clean gsn (readerSafe gsn member)
    · simp only [ReaderSafe, clean, if_false, index]
      exact readerSafe
  case h_2 clean =>
    simp only [clean] at readerSafe
    simp only [Option.some.injEq, Prod.mk.injEq] at stepped
    obtain ⟨rfl, -, -⟩ := stepped
    exact readerSafe
  case h_3 dirty =>
    simp only [dirty] at readerSafe
    simp only [Option.some.injEq, Prod.mk.injEq] at stepped
    obtain ⟨rfl, -, -⟩ := stepped
    simp only [ReaderSafe, index]
    exact readerSafe
  case h_4 mark observed =>
    simp only [observed] at readerSafe
    simp only [Option.some.injEq, Prod.mk.injEq] at stepped
    obtain ⟨rfl, rows, -⟩ := stepped
    simp only [ReaderSafe, index, ← rows]
    exact ⟨readerSafe, Nat.le_refl _⟩
  case h_5 mark row fetched =>
    simp only [fetched] at readerSafe
    simp only [Option.some.injEq, Prod.mk.injEq] at stepped
    obtain ⟨rfl, rows, -⟩ := stepped
    have seen : ∀ gsn ∈ entityGsns s.entityActions reader.entity, gsn ≤ row.getD 0 ∨
        gsn ∈ (entityGsns s.entityActions reader.entity).filter (row.getD 0 < ·) := by
      intro gsn member
      by_cases newer : row.getD 0 < gsn
      · exact .inr (List.mem_filter.mpr ⟨member, by simpa using newer⟩)
      · exact .inl (Nat.le_of_not_lt newer)
    simp only [ReaderSafe, index, ← rows]
    refine ⟨fun gsn member => seen gsn (readerSafe.1 gsn member), ?_, readerSafe.2,
      fun _ _ _ => .inr seen⟩
    intro gsn member
    simpa using (List.mem_filter.mp member).2
  case h_6 mark row gsns scanned =>
    simp only [scanned] at readerSafe
    obtain ⟨before, newer, cached, cover⟩ := readerSafe
    split at stepped
    · next nothing =>
        simp only [Option.some.injEq, Prod.mk.injEq] at stepped
        obtain ⟨rfl, rows, marks⟩ := stepped
        subst nothing
        have below : ∀ {gsn}, gsn ≤ row.getD 0 ∨ gsn ∈ ([] : List Nat) → gsn ≤ row.getD 0 :=
          fun either => either.resolve_right List.not_mem_nil
        refine ⟨fun gsn member => below (before gsn member), fun settled present stored => ?_⟩
        refine (cover settled present (marks ▸ stored)).imp (unapplied _) ?_
        intro all gsn member
        rw [← rows]
        exact Nat.le_trans (below (all gsn (index ▸ member))) cached
    · next something =>
        simp only [Option.some.injEq, Prod.mk.injEq] at stepped
        obtain ⟨rfl, rows, marks⟩ := stepped
        have below : ∀ {gsn}, gsn ≤ row.getD 0 ∨ gsn ∈ gsns → gsn ≤ gsns.foldr max 0 := by
          rintro gsn (old | new)
          · obtain ⟨head, headMember⟩ := List.exists_mem_of_ne_nil gsns something
            have beyond := newer head headMember
            have bound := le_foldr_max headMember
            omega
          · exact le_foldr_max new
        refine ⟨fun gsn member => below (before gsn member), fun settled present stored => ?_⟩
        refine (cover settled present (marks ▸ stored)).imp (unapplied _) ?_
        intro all gsn member
        rw [← rows]
        exact Nat.le_trans (below (all gsn (index ▸ member))) (upsertRow_spec _ _ _).1
  case h_7 mark result written =>
    simp only [written] at readerSafe
    simp only [Option.some.injEq, Prod.mk.injEq] at stepped
    obtain ⟨rfl, -, -⟩ := stepped
    exact readerSafe.1
  case h_8 => cases stepped

private theorem clearDirty_settled {other : String} {observed : Option Mark} {number : Nat}
    (stored : DirtyTracker.clearDirty entity observed marks other = some (.settled number)) :
    marks other = some (.settled number) := by
  simp only [DirtyTracker.clearDirty] at stored
  split at stored
  · cases stored
  · exact stored

private theorem CleanSafe.advanceRead (safe : CleanSafe s) {index : Nat}
    (found : s.readers[index]? = some reader)
    (stepped : s.readStep reader = some (phase, rows, marks))
    (condition : s.MarksKept (.advanceRead index)) :
    CleanSafe { s with
      rows
      marks
      readers := s.readers.set index { reader with phase } } := by
  have member : reader ∈ s.readers := List.mem_of_getElem? found
  have readerSafe := safe.readers reader member
  -- A mark that goes away is the settled one this reader observed.
  have removed : ∀ entity, marks entity = none → s.marks entity = none ∨
      (entity = reader.entity ∧ rows = s.rows ∧ s.UpToDate entity ∧
        ∀ batch ∈ s.batches, entity ∉ batch.entities) := by
    intro entity absent
    rcases readStep_marks stepped with same | ⟨mark, result, written, settled, kept, cleared⟩
    · exact .inl (same ▸ absent)
    · by_cases unmarked : s.marks entity = none
      · exact .inl unmarked
      · rw [cleared] at absent
        simp only [DirtyTracker.clearDirty] at absent
        split at absent
        · next holds =>
            obtain ⟨rfl, observed⟩ := holds
            obtain ⟨generation, rfl⟩ := settled_of_not_pending settled (observed ▸ unmarked)
            have untouched : ∀ batch ∈ s.batches, reader.entity ∉ batch.entities := by
              obtain ⟨readerEntity, durableBefore, readerPhase⟩ := reader
              subst written
              refine condition.2.2 readerEntity ?_
              simp only [clearedEntity, found, observed, if_true, Option.mem_def]
            simp only [ReaderSafe, written] at readerSafe
            refine .inr ⟨rfl, kept, ?_, untouched⟩
            refine (readerSafe.2 rfl (by simp) observed).resolve_left ?_
            rintro ⟨batch, inBatches, touched, -⟩
            exact untouched batch inBatches touched
        · exact .inl absent
  have settledKept : ∀ {entity number}, marks entity = some (.settled number) →
      s.marks entity = some (.settled number) := by
    intro entity number stored
    rcases readStep_marks stepped with same | ⟨mark, result, -, -, -, cleared⟩
    · exact same ▸ stored
    · exact clearDirty_settled (cleared ▸ stored)
  have respects : Respects s { s with
      rows
      marks
      readers := s.readers.set index { reader with phase } } := by
    refine ⟨readStep_rows stepped, fun _ => List.Subset.refl _, ?_⟩
    exact fun entity number _ stored =>
      ⟨settledKept stored, fun waiting => waiting, fun gsn listed => .inl listed⟩
  have cases : ∀ {other}, other ∈ s.readers.set index { reader with phase } →
      other ∈ s.readers ∨ other = { reader with phase } := fun listed =>
    List.mem_or_eq_of_mem_set listed
  constructor
  · exact fun entity number stored => safe.generations entity number (settledKept stored)
  · intro other listed number same
    rcases cases listed with old | rfl
    · exact safe.observed other old number same
    · -- Only the observation brings a mark in; later phases carry it along.
      unfold readStep at stepped
      split at stepped
      case h_3 =>
        cases stepped
        exact safe.generations reader.entity number same
      case h_1 =>
        cases stepped
        split at same <;> cases same
      case h_6 mark row gsns scanned =>
        have observed := safe.observed reader member number
        rw [scanned] at observed
        split at stepped <;> cases stepped <;> exact observed same
      case h_4 mark earlier =>
        have observed := safe.observed reader member number
        rw [earlier] at observed
        cases stepped
        exact observed same
      case h_5 mark row earlier =>
        have observed := safe.observed reader member number
        rw [earlier] at observed
        cases stepped
        exact observed same
      all_goals
        cases stepped
        try cases same
  · intro batch inBatches notRemarking entity touched absent
    rcases removed entity absent with unmarked | ⟨-, -, -, untouched⟩
    · exact safe.marked batch inBatches notRemarking entity touched unmarked
    · exact untouched batch inBatches touched
  · intro entity absent gsn listed
    rcases removed entity absent with unmarked | ⟨-, kept, upToDate, -⟩
    · exact Nat.le_trans (safe.covered entity unmarked gsn listed) (readStep_rows stepped entity)
    · exact Nat.le_trans (upToDate gsn listed) (readStep_rows stepped entity)
  · intro other listed
    rcases cases listed with old | rfl
    · exact (safe.readers other old).respects respects (safe.observed other old)
    · exact readStep_safe safe readerSafe stepped rfl fun entity waiting => waiting

/-! ## Runs -/

private theorem get?_of_mem (tidy : Tidy s) (member : batch ∈ s.batches)
    : CommitPipeline.get? s.batches batch.ref = some batch := by
  cases found : CommitPipeline.get? s.batches batch.ref with
  | none =>
      have absent := List.find?_eq_none.mp found batch member
      exact absurd (by simp) absent
  | some other =>
      obtain ⟨inBatches, same⟩ := CommitPipeline.get?_spec found
      rw [tidy.eq_of_ref inBatches member same]

theorem remarkingRef_of_idle (idle : s.task = .idle) : s.remarkingRef = none := by
  rw [remarkingRef, idle]

/-- A step that touches neither marks, rows, batches nor reads, and forgets the batch it was
about to mark only when the batch is gone. -/
theorem CleanSafe.keep (safe : CleanSafe s) (marks : next.marks = s.marks)
    (rows : next.rows = s.rows) (index : next.entityActions = s.entityActions)
    (readers : next.readers = s.readers) (generation : next.nextGeneration = s.nextGeneration)
    (batches : next.batches = s.batches) (jobs : next.jobs = s.jobs)
    (remarking : ∀ ref, s.remarkingRef = some ref →
      next.remarkingRef = some ref ∨ ∀ batch ∈ s.batches, batch.ref ≠ ref) : CleanSafe next := by
  refine safe.relabel marks rows index readers generation ?_ ?_
  · intro batch member notRemarking
    rw [batches] at member
    refine safe.marked batch member fun same => ?_
    rcases remarking batch.ref same with still | gone
    · exact notRemarking still
    · exact gone batch member rfl
  · rintro entity ⟨batch, member, touched, landed⟩
    refine ⟨batch, batches ▸ member, touched, ?_⟩
    rw [Landed, jobs]
    exact landed

/-- A batch in its next phase is marked as it was. -/
theorem CleanSafe.marked_setPhase (safe : CleanSafe s) (idle : s.task = .idle) {ref : Nat}
    {phase : Phase} {other : Batch}
    (inBatches : other ∈ CommitPipeline.setPhase s.batches ref phase) :
    ∀ entity ∈ other.entities, s.marks entity ≠ none := by
  intro entity touched
  obtain ⟨old, inOld, -, actions, -⟩ := mem_setPhase_core inBatches
  exact safe.marked old inOld (by simp [remarkingRef_of_idle idle]) entity
    (entities_eq actions ▸ touched)

theorem CleanSafe.startRead (safe : CleanSafe s) (entity : String) :
    CleanSafe (s.startRead entity) := by
  refine ⟨safe.generations, ?_, safe.marked, safe.covered, ?_⟩
  · intro reader listed number same
    rcases List.mem_append.mp listed with old | new
    · exact safe.observed reader old number same
    · rw [List.mem_singleton.mp new] at same
      cases same
  · intro reader listed
    rcases List.mem_append.mp listed with old | new
    · exact safe.readers reader old
    · rw [List.mem_singleton.mp new]
      exact fun gsn member => member

theorem CleanSafe.step {event : Event} (safe : CleanSafe s) (tidy : Tidy s)
    (running : event.isRestart = false) (condition : s.MarksKept event)
    (stepped : StepCase s event next) : CleanSafe next := by
  cases stepped with
  | plan burst idle =>
      refine safe.keep rfl rfl rfl rfl rfl rfl rfl fun ref remarking => ?_
      rw [remarkingRef_of_idle idle] at remarking
      cases remarking
  | claimNothing tagged planning nothing =>
      refine safe.keep rfl rfl rfl rfl rfl rfl rfl fun ref remarking => ?_
      rw [remarkingRef, planning] at remarking
      cases remarking
  | claim tagged planning something =>
      have notRemarking : s.remarkingRef = none := by rw [remarkingRef, planning]
      exact safe.claim notRemarking rfl rfl rfl rfl rfl rfl rfl
  | dispatch batch idle member prepared =>
      refine safe.relabel rfl rfl rfl rfl rfl ?_ ?_
      · exact fun other inBatches _ => safe.marked_setPhase idle inBatches
      · rintro entity ⟨other, inOld, touched, landed⟩
        have different : other.ref ≠ batch.ref := fun same =>
          landed.1 (tidy.eq_of_ref inOld member same ▸ prepared)
        refine ⟨other, List.mem_map.mpr ⟨other, inOld, if_neg different⟩, touched,
          landed.1, fun listed => ?_⟩
        rw [List.map_append, List.mem_append] at listed
        rcases listed with earlier | new
        · exact landed.2 earlier
        · exact different (by simpa using new)
  | land job member =>
      have open_ := condition.1 job (List.mem_filter.mpr ⟨member, by simp⟩)
      exact safe.land tidy member open_
  | reject batch idle member outstanding committing =>
      have cleared := condition.2.1 batch (get?_of_mem tidy member)
      refine safe.clear (remarkingRef_of_idle idle) cleared rfl rfl rfl rfl rfl
        (fun other inBatches => (CommitPipeline.mem_prune.mp inBatches).1)
        (fun other inBatches _ => (CommitPipeline.mem_prune.mp inBatches).2) ?_
      intro other inOld landed
      refine ⟨CommitPipeline.mem_prune.mpr ⟨inOld, fun same => ?_⟩, landed.1,
        fun listed => landed.2 ?_⟩
      · exact cleared.1 (tidy.eq_of_ref inOld member same ▸ landed)
      · obtain ⟨kept, inKept, ref⟩ := List.mem_map.mp listed
        exact List.mem_map.mpr ⟨kept, List.mem_of_mem_filter inKept, ref⟩
  | ack batch idle member acked committing =>
      refine safe.relabel rfl rfl rfl rfl rfl ?_ ?_
      · exact fun other inBatches _ => safe.marked_setPhase idle inBatches
      · rintro entity ⟨other, inOld, touched, landed⟩
        refine ⟨_, List.mem_map.mpr ⟨other, inOld, rfl⟩, ?_, ?_, ?_⟩
        · split <;> exact touched
        · split
          · exact fun same => nomatch same
          · exact landed.1
        · split <;> exact landed.2
  | apply batch rest idle oldest committed =>
      exact safe.apply (remarkingRef_of_idle idle) oldest rfl rfl rfl rfl rfl rfl rfl
  | abandon batch idle member =>
      have cleared := condition.2.1 batch (get?_of_mem tidy member)
      refine safe.clear (remarkingRef_of_idle idle) cleared rfl rfl rfl rfl rfl
        (fun other inBatches => (CommitPipeline.mem_prune.mp inBatches).1)
        (fun other inBatches _ => (CommitPipeline.mem_prune.mp inBatches).2) ?_
      intro other inOld landed
      refine ⟨CommitPipeline.mem_prune.mpr ⟨inOld, fun same => ?_⟩, landed⟩
      exact cleared.1 (tidy.eq_of_ref inOld member same ▸ landed)
  | rebuilt rebuilding =>
      refine safe.keep rfl rfl rfl rfl rfl rfl rfl fun ref remarking => ?_
      rw [remarkingRef, rebuilding] at remarking
      cases remarking
  | rebuildGone ref refs busy gone =>
      refine safe.keep rfl rfl rfl rfl rfl rfl rfl fun other remarking => .inr ?_
      rcases busy with busy | busy <;> rw [remarkingRef, busy] at remarking
      · cases remarking
      · cases remarking
        intro batch member same
        exact absurd (by simpa using same) (List.find?_eq_none.mp gone batch member)
  | rebuildClear batch refs rebuilding member =>
      have notRemarking : s.remarkingRef = none := by rw [remarkingRef, rebuilding]
      have cleared := condition.2.1 batch (by
        simp only [clearedBatch, rebuilding]
        exact get?_of_mem tidy member)
      refine safe.clear notRemarking cleared rfl rfl rfl rfl rfl (fun other inBatches => inBatches)
        (fun other _ other_ same => other_ ?_) fun other inOld landed => ⟨inOld, landed⟩
      simp [remarkingRef, same]
  | rebuildMark batch refs remarking member => exact safe.rebuildMark tidy remarking member
  | startRead entity => exact safe.startRead entity
  | advanceRead index reader phase rows marks found stepped =>
      exact safe.advanceRead found stepped condition
  | handPosition =>
      exact safe.keep rfl rfl rfl rfl rfl rfl rfl fun ref remarking => .inl remarking
  | restartWriter => cases running
  | restartWatermarkTracker => cases running
  | restartSystemCache => cases running
  | restartNode => cases running

/-- In a run of batches and reads whose steps keep the marks, no read is stale. -/
theorem noStaleRead_of_run {maxInFlight : Nat} {events : List Event} {s : StorageTree}
    (running : ∀ event ∈ events, event.isRestart = false)
    (meets : (machine maxInFlight).Meets MarksKept .initial events)
    (reached : (machine maxInFlight).run .initial events = some s) : s.NoStaleRead := by
  have preserved : ∀ state event next, Tidy state ∧ CleanSafe state →
      state.MarksKept event ∧ event.isRestart = false →
      (machine maxInFlight).step state event = some next → Tidy next ∧ CleanSafe next := by
    rintro state event next ⟨tidy, safe⟩ ⟨condition, running⟩ stepped
    have inverted := step_cases stepped
    exact ⟨tidy.step inverted, safe.step tidy running condition inverted⟩
  have safe := (Machine.run_preserves preserved ⟨tidy_initial, cleanSafe_initial⟩
    (Machine.meets_and meets running) reached).2
  intro reader member lastGsn returned gsn listed
  have readerSafe := safe.readers reader member
  simp only [ReaderSafe, returned] at readerSafe
  exact readerSafe gsn listed

/-! A commit that fails while the entity is still dirty from an earlier one: clearing
its provisional mark loses the earlier reason. -/

private def noteEdit (id : String) : PreparedAction where
  id := id
  affectedEntities := ["note_a"]
  movesGroups := false

def readAll (index : Nat) : List Event :=
  .startRead "note_a" :: List.replicate 6 (.advanceRead index)

def firstCommitRead : List Event :=
  [.plan [noteEdit "act_a"], .claim, .dispatch, .land 0, .ack 0, .apply] ++ readAll 0

def failedSecondCommit : List Event :=
  firstCommitRead ++
    [.plan [noteEdit "act_b"], .claim, .dispatch, .land 1, .ack 1, .apply,
      .plan [noteEdit "act_c"], .claim, .dispatch, .reject 2, .rebuild,
      .startRead "note_a", .advanceRead 1, .advanceRead 1]

theorem failed_commit_reads_stale :
    ¬ ∀ (maxInFlight : Nat) (events : List Event) (s : StorageTree),
      (∀ event ∈ events, event.isRestart = false) →
      (machine maxInFlight).run .initial events = some s → s.NoStaleRead := by
  intro fresh
  have read : ((machine 1).run .initial failedSecondCommit).map (fun s => s.readers[1]?) =
      some (some
        { entity := "note_a", durableBefore := [1, 2], phase := .returned (some 1) }) := by
    decide
  obtain ⟨s, reached, found⟩ := Option.map_eq_some_iff.mp read
  exact absurd (fresh 1 failedSecondCommit s (by decide) reached _
    (List.mem_of_getElem? found) 1 rfl 2 (by decide)) (by decide)

/-- Two open batches and a read that materializes between their commits. -/
def overlappingCommits : List Event :=
  firstCommitRead ++
    [.plan [noteEdit "act_b"], .claim, .dispatch, .plan [noteEdit "act_c"], .claim,
      .dispatch, .land 2] ++ readAll 1 ++
    [.land 1, .ack 2, .ack 1, .apply, .apply] ++ readAll 2

theorem noStaleRead_overlappingCommits :
    (((machine 2).run .initial overlappingCommits).get (by decide)).NoStaleRead :=
  noStaleRead_of_run (by decide) (by decide) (Option.some_get _).symm

end StorageTree

end Ebb.Server
