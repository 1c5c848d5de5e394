import Ebb.Server.WriterSteps

namespace Ebb.Server

namespace StorageTree

/-! Deduplication of the Action log: which runs keep every Action id at a single
GSN. The in-flight set protects an id until its batch is released, so what remains
is a write that lands after that. -/

/-- No Action id stands at two GSNs of the log. -/
def AtMostOneCopy (s : StorageTree) : Prop :=
  ∀ gsn other action duplicate, s.actions.lookup gsn = some action →
    s.actions.lookup other = some duplicate → action.id = duplicate.id → gsn = other

def planned (s : StorageTree) : List PreparedAction :=
  match s.task with
  | .planning tagged => tagged
  | _ => []

/-- A write whose batch was already released lands only while none of its ids is
durable, in flight or being planned. -/
def LateWriteUnclaimed (s : StorageTree) (event : Event) : Prop :=
  ∀ job ∈ s.landingJobs event, CommitPipeline.get? s.batches job.ref = none →
    ∀ action ∈ job.prepared,
      ¬ s.Durable action.id ∧ action.id ∉ s.inFlight ∧
        action.id ∉ s.planned.map PreparedAction.id

instance (s : StorageTree) (event : Event) : Decidable (s.LateWriteUnclaimed event) :=
  inferInstanceAs (Decidable (∀ job ∈ s.landingJobs event, _ → ∀ action ∈ job.prepared,
    ¬ (s.dedup.lookup action.id).isSome = true ∧ _ ∧ _))

/-! ## The guard -/

structure IdsGuarded (s : StorageTree) : Prop where
  idsNodup : ∀ batch ∈ s.batches, batch.actionIds.Nodup
  jobIdsNodup : ∀ job ∈ s.jobs, (job.prepared.map PreparedAction.id).Nodup
  disjoint : ∀ left ∈ s.batches, ∀ right ∈ s.batches, left.ref ≠ right.ref →
    ∀ id ∈ left.actionIds, id ∉ right.actionIds
  claimed : ∀ batch ∈ s.batches, batch.phase ≠ .committed →
    ∀ id ∈ batch.actionIds, id ∈ s.inFlight
  unwritten : ∀ batch ∈ s.batches, batch.phase = .prepared →
    ∀ id ∈ batch.actionIds, ¬ s.Durable id
  outstanding : ∀ job ∈ s.jobs, ∀ batch ∈ s.batches, batch.ref = job.ref →
    ∀ id ∈ batch.actionIds, ¬ s.Durable id
  written : ∀ batch ∈ s.batches, batch.phase = .committed ∨ batch.ref ∈ s.acks →
    ∀ id ∈ batch.actionIds, s.Durable id
  plannedNodup : (s.planned.map PreparedAction.id).Nodup
  plannedFresh : ∀ action ∈ s.planned, s.Durable action.id → action.id ∈ s.inFlight
  indexed : ∀ gsn action, s.actions.lookup gsn = some action → s.Durable action.id
  single : s.AtMostOneCopy

theorem idsGuarded_initial : IdsGuarded .initial := by
  constructor <;> simp [initial, planned, AtMostOneCopy]

variable {s : StorageTree} {batch : Batch}

theorem IdsGuarded.relabel {next : StorageTree} (guarded : IdsGuarded s)
    (batches : ∀ batch ∈ next.batches, ∃ old ∈ s.batches, batch.ref = old.ref ∧ batch.prepared =
      old.prepared ∧ batch.phase = old.phase)
    (jobs : next.jobs ⊆ s.jobs) (acks : next.acks ⊆ s.acks) (actions : next.actions = s.actions)
    (dedup : next.dedup = s.dedup)
    (claimed : ∀ batch ∈ next.batches, batch.phase ≠ .committed →
      ∀ id ∈ batch.actionIds, id ∈ next.inFlight)
    (plannedNodup : (next.planned.map PreparedAction.id).Nodup)
    (plannedFresh : ∀ action ∈ next.planned, s.Durable action.id → action.id ∈ next.inFlight) :
    IdsGuarded next := by
  have durable : ∀ id, next.Durable id ↔ s.Durable id := fun id => by
    rw [Durable, Durable, dedup]
  have ids : ∀ {batch old : Batch}, batch.prepared = old.prepared →
      batch.actionIds = old.actionIds := fun same => congrArg (List.map _) same
  constructor
  · intro batch member
    obtain ⟨old, inOld, -, prepared, -⟩ := batches batch member
    exact ids prepared ▸ guarded.idsNodup old inOld
  · exact fun job member => guarded.jobIdsNodup job (jobs member)
  · intro left leftOpen right rightOpen different
    obtain ⟨oldLeft, inLeft, leftRef, leftPrepared, -⟩ := batches left leftOpen
    obtain ⟨oldRight, inRight, rightRef, rightPrepared, -⟩ := batches right rightOpen
    rw [ids leftPrepared, ids rightPrepared]
    exact guarded.disjoint oldLeft inLeft oldRight inRight
      (leftRef ▸ rightRef ▸ different)
  · exact claimed
  · intro batch member phase id listed
    obtain ⟨old, inOld, -, prepared, same⟩ := batches batch member
    rw [durable]
    exact guarded.unwritten old inOld (same ▸ phase) id (ids prepared ▸ listed)
  · intro job inJobs batch member same id listed
    obtain ⟨old, inOld, ref, prepared, -⟩ := batches batch member
    rw [durable]
    exact guarded.outstanding job (jobs inJobs) old inOld (ref ▸ same) id
      (ids prepared ▸ listed)
  · intro batch member landed id listed
    obtain ⟨old, inOld, ref, prepared, phase⟩ := batches batch member
    rw [durable]
    refine guarded.written old inOld ?_ id (ids prepared ▸ listed)
    exact landed.imp (fun committed => phase ▸ committed) fun acked => ref ▸ acks acked
  · exact plannedNodup
  · exact fun action member isDurable =>
      plannedFresh action member ((durable action.id).mp isDurable)
  · intro gsn action found
    rw [durable]
    exact guarded.indexed gsn action (actions ▸ found)
  · intro gsn other action duplicate
    rw [actions]
    exact guarded.single gsn other action duplicate

theorem IdsGuarded.claimed_of_released (guarded : IdsGuarded s) {other : Batch}
    (member : batch ∈ s.batches) (otherOpen : other ∈ s.batches) (different : other.ref ≠ batch.ref)
    (unresolved : other.phase ≠ .committed) {id : String} (listed : id ∈ other.actionIds) :
    id ∈ InFlightActions.release batch.actionIds s.inFlight := by
  have elsewhere := guarded.disjoint other otherOpen batch member different id listed
  have inFlight := guarded.claimed other otherOpen unresolved id listed
  simpa [InFlightActions.release] using ⟨inFlight, elsewhere⟩

/-! ## Planning and claiming -/

theorem uniqById_nodup (tagged : List PreparedAction) :
    ((uniqById tagged).map PreparedAction.id).Nodup := by
  induction tagged with
  | nil => exact List.nodup_nil
  | cons action rest induction =>
      rw [uniqById, List.map_cons, List.nodup_cons]
      constructor
      · intro listed
        obtain ⟨other, member, same⟩ := List.mem_map.mp listed
        exact (by simpa using (List.mem_filter.mp member).2 : other.id ≠ action.id) same
      · exact induction.sublist (List.filter_sublist.map _)

theorem survivors_nodup (s : StorageTree) (burst : List PreparedAction) :
    ((s.survivors burst).map PreparedAction.id).Nodup :=
  (uniqById_nodup _).sublist (List.filter_sublist.map _)

theorem survivors_not_durable {burst : List PreparedAction} {action : PreparedAction}
    (member : action ∈ s.survivors burst) :
    ¬ s.Durable action.id := by
  have absent : (s.dedup.lookup action.id).isNone = true := (List.mem_filter.mp member).2
  rw [Durable, Option.isNone_iff_eq_none.mp absent]
  exact Bool.false_ne_true

theorem claimedTable_subset (s : StorageTree) (tagged : List PreparedAction) :
    s.inFlight ⊆ s.claimedTable tagged := fun id member =>
  ((InFlightActions.claim_spec _ _).2 id).mpr (.inl member)

theorem freshActions_spec {tagged : List PreparedAction} {action : PreparedAction}
    (member : action ∈ s.freshActions tagged) :
    action ∈ tagged ∧ action.id ∉ s.inFlight ∧ action.id ∈ s.claimedTable tagged := by
  have spec := List.mem_filter.mp member
  have won := by simpa using spec.2
  have claim := InFlightActions.claim_spec (tagged.map PreparedAction.id) s.inFlight
  exact ⟨spec.1, claim.1 _ won, (claim.2 _).mpr (.inr won)⟩

section

variable (guarded : IdsGuarded s)
include guarded

private theorem IdsGuarded.claim {tagged : List PreparedAction}
    (planning : s.task = .planning tagged) (tidy : Tidy s) {counter : Nat}
    {marks : DirtyTracker.Marks} {nextGeneration : Nat} :
    IdsGuarded { s with
      task := .idle
      inFlight := s.claimedTable tagged
      counter
      marks
      nextGeneration
      nextRef := s.nextRef + 1
      batches := s.batches ++ [s.claimedBatch (s.freshActions tagged)] } := by
  have plannedEq : s.planned = tagged := by rw [planned, planning]
  have freshId : ∀ id ∈ (s.claimedBatch (s.freshActions tagged)).actionIds,
      id ∉ s.inFlight ∧ id ∈ s.claimedTable tagged ∧ ¬ s.Durable id := by
    intro id listed
    obtain ⟨action, member, rfl⟩ := List.mem_map.mp listed
    have spec := freshActions_spec member
    exact ⟨spec.2.1, spec.2.2, fun durable =>
      spec.2.1 (guarded.plannedFresh action (plannedEq ▸ spec.1) durable)⟩
  have foreign : ∀ batch ∈ s.batches, ∀ id ∈ batch.actionIds,
      id ∉ (s.claimedBatch (s.freshActions tagged)).actionIds := by
    intro batch member id listed new
    by_cases committed : batch.phase = .committed
    · exact (freshId id new).2.2 (guarded.written batch member (.inl committed) id listed)
    · exact (freshId id new).1 (guarded.claimed batch member committed id listed)
  have cases : ∀ {batch : Batch},
      batch ∈ s.batches ++ [s.claimedBatch (s.freshActions tagged)] →
      batch ∈ s.batches ∨ batch = s.claimedBatch (s.freshActions tagged) := by
    intro batch member
    exact (List.mem_append.mp member).imp_right List.mem_singleton.mp
  constructor
  · intro batch member
    rcases cases member with old | rfl
    · exact guarded.idsNodup batch old
    · exact (plannedEq ▸ guarded.plannedNodup).sublist (List.filter_sublist.map _)
  · exact guarded.jobIdsNodup
  · intro left leftOpen right rightOpen different id listed
    rcases cases leftOpen with oldLeft | rfl <;> rcases cases rightOpen with oldRight | rfl
    · exact guarded.disjoint left oldLeft right oldRight different id listed
    · exact foreign left oldLeft id listed
    · exact fun elsewhere => foreign right oldRight id elsewhere listed
    · exact absurd rfl different
  · intro batch member unresolved id listed
    rcases cases member with old | rfl
    · exact claimedTable_subset s tagged (guarded.claimed batch old unresolved id listed)
    · exact (freshId id listed).2.1
  · intro batch member phase id listed
    rcases cases member with old | rfl
    · exact guarded.unwritten batch old phase id listed
    · exact (freshId id listed).2.2
  · intro job inJobs batch member same id listed
    rcases cases member with old | rfl
    · exact guarded.outstanding job inJobs batch old same id listed
    · exact (freshId id listed).2.2
  · intro batch member landed id listed
    rcases cases member with old | rfl
    · exact guarded.written batch old landed id listed
    · rcases landed with committed | acked
      · cases committed
      · exact absurd rfl (Nat.ne_of_lt (tidy.ackRefs _ acked).1)
  · exact List.nodup_nil
  · exact fun action member => absurd member (List.not_mem_nil)
  · exact guarded.indexed
  · exact guarded.single

/-! ## Dispatching, landing and acknowledging -/

private theorem IdsGuarded.dispatch (tidy : Tidy s) (idle : s.task = .idle)
    (member : batch ∈ s.batches) (prepared : batch.phase = .prepared) :
    IdsGuarded { s with
      batches := CommitPipeline.setPhase s.batches batch.ref .committing
      jobs := s.jobs ++
        [{ ref := batch.ref, gsnStart := batch.gsnStart, prepared := batch.prepared }] } := by
  have core : ∀ other ∈ CommitPipeline.setPhase s.batches batch.ref .committing,
      ∃ old ∈ s.batches, other.ref = old.ref ∧ other.actionIds = old.actionIds ∧
        (old = batch ∧ other.phase = .committing ∨
          old.ref ≠ batch.ref ∧ other.phase = old.phase) := by
    intro other inBatches
    obtain ⟨old, inOld, ref, actions, -, -, changed, kept⟩ := mem_setPhase_core inBatches
    refine ⟨old, inOld, ref, congrArg (List.map _) actions, ?_⟩
    by_cases same : old.ref = batch.ref
    · exact .inl ⟨tidy.eq_of_ref inOld member same, changed same⟩
    · exact .inr ⟨same, kept same⟩
  have nothing : s.planned = [] := by rw [planned, idle]
  constructor
  · intro other inBatches
    obtain ⟨old, inOld, -, ids, -⟩ := core other inBatches
    exact ids ▸ guarded.idsNodup old inOld
  · intro job inJobs
    rcases List.mem_append.mp inJobs with earlier | new
    · exact guarded.jobIdsNodup job earlier
    · rw [List.mem_singleton.mp new]
      exact guarded.idsNodup batch member
  · intro left leftOpen right rightOpen different
    obtain ⟨oldLeft, inLeft, leftRef, leftIds, -⟩ := core left leftOpen
    obtain ⟨oldRight, inRight, rightRef, rightIds, -⟩ := core right rightOpen
    rw [leftIds, rightIds]
    exact guarded.disjoint oldLeft inLeft oldRight inRight (leftRef ▸ rightRef ▸ different)
  · intro other inBatches unresolved id listed
    obtain ⟨old, inOld, -, ids, dispatched | ⟨-, kept⟩⟩ := core other inBatches
    · have waiting : old.phase ≠ .committed := by simp [dispatched.1, prepared]
      exact guarded.claimed old inOld waiting id (ids ▸ listed)
    · exact guarded.claimed old inOld (kept ▸ unresolved) id (ids ▸ listed)
  · intro other inBatches phase id listed
    obtain ⟨old, inOld, -, ids, dispatched | ⟨-, kept⟩⟩ := core other inBatches
    · exact absurd (dispatched.2.symm.trans phase) (by decide)
    · exact guarded.unwritten old inOld (kept ▸ phase) id (ids ▸ listed)
  · intro job inJobs other inBatches same id listed
    obtain ⟨old, inOld, ref, ids, dispatched | ⟨different, -⟩⟩ := core other inBatches
    · exact guarded.unwritten old inOld (dispatched.1 ▸ prepared) id (ids ▸ listed)
    · rcases List.mem_append.mp inJobs with earlier | new
      · exact guarded.outstanding job earlier old inOld (ref ▸ same) id (ids ▸ listed)
      · rw [List.mem_singleton.mp new] at same
        exact absurd (ref ▸ same) different
  · intro other inBatches landed id listed
    obtain ⟨old, inOld, ref, ids, dispatched | ⟨-, kept⟩⟩ := core other inBatches
    · refine guarded.written old inOld (landed.imp (fun committed => ?_) (ref ▸ ·)) id
        (ids ▸ listed)
      exact absurd (dispatched.2.symm.trans committed) (by decide)
    · exact guarded.written old inOld (landed.imp (kept ▸ ·) (ref ▸ ·)) id (ids ▸ listed)
  · exact guarded.plannedNodup
  · exact guarded.plannedFresh
  · exact guarded.indexed
  · exact guarded.single

private theorem IdsGuarded.landing (tidy : Tidy s) {job : Job} (member : job ∈ s.jobs)
    (condition : s.LateWriteUnclaimed (.land job.ref)) {id : String}
    (listed : id ∈ job.prepared.map PreparedAction.id) :
    ¬ s.Durable id ∧
      (∀ other ∈ s.batches, other.ref ≠ job.ref → id ∉ other.actionIds) ∧
      (id ∈ s.planned.map PreparedAction.id → id ∈ s.inFlight) := by
  cases found : CommitPipeline.get? s.batches job.ref with
  | some batch =>
      obtain ⟨inBatches, same⟩ := CommitPipeline.get?_spec found
      obtain ⟨committing, prepared, -⟩ := tidy.jobBatch job member batch inBatches same
      have owned : id ∈ batch.actionIds := by rw [Batch.actionIds, prepared]; exact listed
      refine ⟨guarded.outstanding job member batch inBatches same id owned, ?_, fun _ => ?_⟩
      · intro other otherOpen different
        exact guarded.disjoint batch inBatches other otherOpen
          (fun equal => different (equal.symm.trans same)) id owned
      · exact guarded.claimed batch inBatches (by simp [committing]) id owned
  | none =>
      obtain ⟨action, inJob, rfl⟩ := List.mem_map.mp listed
      obtain ⟨absent, unclaimed, unplanned⟩ := condition job
        (List.mem_filter.mpr ⟨member, by simp⟩) found action inJob
      refine ⟨absent, ?_, fun planned => absurd planned unplanned⟩
      intro other otherOpen _ elsewhere
      by_cases committed : other.phase = .committed
      · exact absent (guarded.written other otherOpen (.inl committed) _ elsewhere)
      · exact unclaimed (guarded.claimed other otherOpen committed _ elsewhere)

private theorem IdsGuarded.land (tidy : Tidy s) {job : Job} (member : job ∈ s.jobs)
    (condition : s.LateWriteUnclaimed (.land job.ref)) :
    IdsGuarded { s.write job with
      jobs := s.jobs.filter fun other => other.ref ≠ job.ref
      acks := job.ref :: s.acks } := by
  have fresh := fun {id : String} (listed : id ∈ job.prepared.map PreparedAction.id) =>
    guarded.landing tidy member condition listed
  have undurable : ∀ {batch : Batch}, batch ∈ s.batches → batch.ref ≠ job.ref →
      ∀ id ∈ batch.actionIds, ¬ s.Durable id → ¬ (s.write job).Durable id := by
    intro batch inBatches different id listed absent durable
    rcases (durable_write s job id).mp durable with new | old
    · exact (fresh new).2.1 batch inBatches different listed
    · exact absent old
  constructor
  · exact guarded.idsNodup
  · exact fun other inJobs => guarded.jobIdsNodup other (List.mem_of_mem_filter inJobs)
  · exact guarded.disjoint
  · exact guarded.claimed
  · intro batch inBatches prepared id listed
    have different : batch.ref ≠ job.ref := fun same => by
      have committing := (tidy.jobBatch job member batch inBatches same).1
      exact absurd (prepared.symm.trans committing) (by decide)
    exact undurable inBatches different id listed
      (guarded.unwritten batch inBatches prepared id listed)
  · intro other inJobs batch inBatches same id listed
    have different : other.ref ≠ job.ref := by simpa using (List.mem_filter.mp inJobs).2
    exact undurable inBatches (same ▸ different) id listed
      (guarded.outstanding other (List.mem_of_mem_filter inJobs) batch inBatches same id listed)
  · intro batch inBatches landed id listed
    apply (durable_write s job id).mpr
    by_cases same : batch.ref = job.ref
    · rw [← (tidy.jobBatch job member batch inBatches same).2.1]
      exact .inl listed
    · refine .inr (guarded.written batch inBatches (landed.imp_right fun acked => ?_) id listed)
      exact (List.mem_cons.mp acked).resolve_left same
  · exact guarded.plannedNodup
  · intro action inPlanned durable
    rcases (durable_write s job action.id).mp durable with new | old
    · exact (fresh new).2.2 (List.mem_map_of_mem inPlanned)
    · exact guarded.plannedFresh action inPlanned old
  · intro gsn action found
    apply (durable_write s job action.id).mpr
    rcases lookup_write found with new | old
    · exact .inl (List.mem_map_of_mem (mem_gsnEntries new).1)
    · exact .inr (guarded.indexed gsn action old)
  · intro gsn other action duplicate left right same
    have written : ∀ {gsn action}, (gsn, action) ∈ gsnEntries job.gsnStart job.prepared →
        ¬ s.Durable action.id := fun listed =>
      (fresh (List.mem_map_of_mem (mem_gsnEntries listed).1)).1
    rcases lookup_write left with newLeft | oldLeft <;>
      rcases lookup_write right with newRight | oldRight
    · exact gsnEntries_inj (guarded.jobIdsNodup job member) newLeft newRight same
    · exact absurd (same ▸ guarded.indexed other duplicate oldRight) (written newLeft)
    · exact absurd (same ▸ guarded.indexed gsn action oldLeft) (written newRight)
    · exact guarded.single gsn other action duplicate oldLeft oldRight same

private theorem IdsGuarded.ack (tidy : Tidy s) (idle : s.task = .idle) (member : batch ∈ s.batches)
    (acked : batch.ref ∈ s.acks) {frontier : WatermarkTracker} :
    IdsGuarded { s with
      batches := CommitPipeline.setPhase s.batches batch.ref .committed
      inFlight := InFlightActions.release batch.actionIds s.inFlight
      frontier
      acks := s.acks.filter (· ≠ batch.ref) } := by
  have core : ∀ other ∈ CommitPipeline.setPhase s.batches batch.ref .committed,
      ∃ old ∈ s.batches, other.ref = old.ref ∧ other.actionIds = old.actionIds ∧
        (old = batch ∧ other.phase = .committed ∨
          old.ref ≠ batch.ref ∧ other.phase = old.phase) := by
    intro other inBatches
    obtain ⟨old, inOld, ref, actions, -, -, changed, kept⟩ := mem_setPhase_core inBatches
    refine ⟨old, inOld, ref, congrArg (List.map _) actions, ?_⟩
    by_cases same : old.ref = batch.ref
    · exact .inl ⟨tidy.eq_of_ref inOld member same, changed same⟩
    · exact .inr ⟨same, kept same⟩
  have nothing : s.planned = [] := by rw [planned, idle]
  constructor
  · intro other inBatches
    obtain ⟨old, inOld, -, ids, -⟩ := core other inBatches
    exact ids ▸ guarded.idsNodup old inOld
  · exact guarded.jobIdsNodup
  · intro left leftOpen right rightOpen different
    obtain ⟨oldLeft, inLeft, leftRef, leftIds, -⟩ := core left leftOpen
    obtain ⟨oldRight, inRight, rightRef, rightIds, -⟩ := core right rightOpen
    rw [leftIds, rightIds]
    exact guarded.disjoint oldLeft inLeft oldRight inRight (leftRef ▸ rightRef ▸ different)
  · intro other inBatches unresolved id listed
    obtain ⟨old, inOld, -, ids, acknowledged | ⟨different, kept⟩⟩ := core other inBatches
    · exact absurd acknowledged.2 unresolved
    · exact guarded.claimed_of_released member inOld different (kept ▸ unresolved)
        (ids ▸ listed)
  · intro other inBatches phase id listed
    obtain ⟨old, inOld, -, ids, acknowledged | ⟨-, kept⟩⟩ := core other inBatches
    · exact absurd (acknowledged.2.symm.trans phase) (by decide)
    · exact guarded.unwritten old inOld (kept ▸ phase) id (ids ▸ listed)
  · intro job inJobs other inBatches same id listed
    obtain ⟨old, inOld, ref, ids, -⟩ := core other inBatches
    exact guarded.outstanding job inJobs old inOld (ref ▸ same) id (ids ▸ listed)
  · intro other inBatches landed id listed
    obtain ⟨old, inOld, ref, ids, acknowledged | ⟨-, kept⟩⟩ := core other inBatches
    · exact guarded.written old inOld (.inr (acknowledged.1 ▸ acked)) id (ids ▸ listed)
    · refine guarded.written old inOld (landed.imp (kept ▸ ·) fun still => ?_) id
        (ids ▸ listed)
      exact ref ▸ List.mem_of_mem_filter still
  · exact nothing ▸ List.nodup_nil
  · intro action inPlanned
    have inNothing : action ∈ s.planned := inPlanned
    rw [nothing] at inNothing
    exact absurd inNothing List.not_mem_nil
  · exact guarded.indexed
  · exact guarded.single

/-! ## Runs -/

theorem IdsGuarded.step {next : StorageTree} {event : Event} (tidy : Tidy s)
    (condition : s.LateWriteUnclaimed event) (stepped : StepCase s event next) :
      IdsGuarded next := by
  have keep : ∀ {after : StorageTree}, after.batches = s.batches → after.jobs = s.jobs →
      after.acks = s.acks → after.actions = s.actions → after.dedup = s.dedup →
      s.inFlight ⊆ after.inFlight → (after.planned.map PreparedAction.id).Nodup →
      (∀ action ∈ after.planned, s.Durable action.id → action.id ∈ after.inFlight) →
      IdsGuarded after := by
    intro after batches jobs acks actions dedup inFlight nodup fresh
    refine guarded.relabel (fun batch member => ⟨batch, batches ▸ member, rfl, rfl, rfl⟩)
      (jobs ▸ List.Subset.refl _) (acks ▸ List.Subset.refl _) actions dedup ?_ nodup fresh
    intro batch member unresolved id listed
    exact inFlight (guarded.claimed batch (batches ▸ member) unresolved id listed)
  have abandoned : ∀ batch ∈ s.batches, IdsGuarded (s.abandonBatch batch) := by
    intro batch member
    refine guarded.relabel (fun other inBatches =>
      ⟨other, (prune_sublist _ _).subset inBatches, rfl, rfl, rfl⟩) (List.Subset.refl _)
      (List.Subset.refl _) rfl rfl ?_ List.nodup_nil (fun _ => by simp [planned, abandonBatch])
    intro other inBatches unresolved id listed
    have spec := CommitPipeline.mem_prune.mp inBatches
    exact guarded.claimed_of_released member spec.1 spec.2 unresolved listed
  have forget : ∀ {after : StorageTree}, after.batches = [] → after.jobs ⊆ s.jobs →
      after.acks = [] → after.task = .idle → after.actions = s.actions →
      after.dedup = s.dedup → IdsGuarded after := by
    intro after batches jobs acks idle actions dedup
    have nothing : after.planned = [] := by rw [planned, idle]
    have none : ∀ batch, batch ∉ after.batches := fun batch => by simp [batches]
    exact guarded.relabel (fun batch member => absurd member (none batch)) jobs
      (acks ▸ List.nil_subset _) actions dedup
      (fun batch member => absurd member (none batch)) (by simp [nothing])
      (by simp [nothing])
  cases stepped with
  | plan burst idle =>
      exact keep rfl rfl rfl rfl rfl (List.Subset.refl _) (survivors_nodup s burst)
        fun action member durable => absurd durable (survivors_not_durable member)
  | claimNothing tagged planning nothing =>
      exact keep rfl rfl rfl rfl rfl (claimedTable_subset s tagged) List.nodup_nil
        fun action member => absurd member List.not_mem_nil
  | claim tagged planning something => exact guarded.claim planning tidy
  | dispatch batch idle member prepared => exact guarded.dispatch tidy idle member prepared
  | land job member => exact guarded.land tidy member condition
  | reject batch idle member outstanding committing =>
      have after := abandoned batch member
      exact after.relabel (fun other inBatches => ⟨other, inBatches, rfl, rfl, rfl⟩)
        (List.filter_subset_self _) (List.Subset.refl _) rfl rfl after.claimed
        after.plannedNodup after.plannedFresh
  | ack batch idle member acked committing => exact guarded.ack tidy idle member acked
  | apply batch rest idle oldest committed =>
      have within : rest ⊆ s.batches := oldest ▸ List.subset_cons_self batch rest
      exact guarded.relabel (fun other inBatches => ⟨other, within inBatches, rfl, rfl, rfl⟩)
        (List.Subset.refl _) (List.Subset.refl _) rfl rfl
        (fun other inBatches => guarded.claimed other (within inBatches))
        guarded.plannedNodup guarded.plannedFresh
  | abandon batch idle member => exact abandoned batch member
  | rebuilt rebuilding =>
      exact keep rfl rfl rfl rfl rfl (List.Subset.refl _) List.nodup_nil
        fun action member => absurd member List.not_mem_nil
  | rebuildGone ref refs busy gone =>
      exact keep rfl rfl rfl rfl rfl (List.Subset.refl _) List.nodup_nil
        fun action member => absurd member List.not_mem_nil
  | rebuildClear batch refs rebuilding member =>
      exact keep rfl rfl rfl rfl rfl (List.Subset.refl _) List.nodup_nil
        fun action member => absurd member List.not_mem_nil
  | rebuildMark batch refs remarking member =>
      have same : ∀ other ∈ s.batches.map (fun other =>
          if other.ref = batch.ref then { other with generation := s.nextGeneration }
          else other), ∃ old ∈ s.batches, other.ref = old.ref ∧
            other.prepared = old.prepared ∧ other.phase = old.phase := by
        intro other inBatches
        obtain ⟨old, inOld, equal⟩ := List.mem_map.mp inBatches
        refine ⟨old, inOld, ?_⟩
        subst equal
        split <;> simp
      refine guarded.relabel same (List.Subset.refl _) (List.Subset.refl _) rfl rfl ?_
        List.nodup_nil fun action member => absurd member List.not_mem_nil
      intro other inBatches unresolved id listed
      obtain ⟨old, inOld, -, prepared, phase⟩ := same other inBatches
      exact guarded.claimed old inOld (phase ▸ unresolved) id
        (by rw [Batch.actionIds, ← prepared]; exact listed)
  | startRead entity =>
      exact keep rfl rfl rfl rfl rfl (List.Subset.refl _) guarded.plannedNodup
        guarded.plannedFresh
  | advanceRead index reader phase rows marks found stepped =>
      exact keep rfl rfl rfl rfl rfl (List.Subset.refl _) guarded.plannedNodup
        guarded.plannedFresh
  | handPosition =>
      exact keep rfl rfl rfl rfl rfl (List.Subset.refl _) guarded.plannedNodup
        guarded.plannedFresh
  | restartWriter => exact forget rfl (List.Subset.refl _) rfl rfl rfl rfl
  | restartWatermarkTracker => exact forget rfl (List.Subset.refl _) rfl rfl rfl rfl
  | restartSystemCache => exact forget rfl (List.Subset.refl _) rfl rfl rfl rfl
  | restartNode => exact forget rfl (List.nil_subset _) rfl rfl rfl rfl

end

/-- In a run whose late writes land only on unclaimed ids, every Action id stands at
one GSN of the log. -/
theorem atMostOneCopy_of_run {maxInFlight : Nat} {events : List Event} {s : StorageTree}
    (meets : (machine maxInFlight).Meets LateWriteUnclaimed .initial events)
    (reached : (machine maxInFlight).run .initial events = some s) : s.AtMostOneCopy := by
  have preserved : ∀ state event next, Tidy state ∧ IdsGuarded state →
      state.LateWriteUnclaimed event → (machine maxInFlight).step state event = some next →
      Tidy next ∧ IdsGuarded next := by
    rintro state event next ⟨tidy, guarded⟩ condition stepped
    have inverted := step_cases stepped
    exact ⟨tidy.step inverted, guarded.step tidy condition inverted⟩
  exact (Machine.run_preserves preserved ⟨tidy_initial, idsGuarded_initial⟩ meets
    reached).2.single

/-! A commit times out, its Action is retried, and the timed-out write lands after the
retry. -/

private def noteWrite (id : String) : PreparedAction where
  id := id
  affectedEntities := ["note_a"]
  movesGroups := false

def lateCopyRun : List Event :=
  [.plan [noteWrite "act_a"], .claim, .dispatch, .abandon 0, .rebuild,
    .plan [noteWrite "act_a"], .claim, .dispatch, .land 1, .ack 1, .land 0]

theorem late_copy_stands_twice :
    ¬ ∀ (maxInFlight : Nat) (events : List Event) (s : StorageTree),
      (machine maxInFlight).run .initial events = some s → s.AtMostOneCopy := by
  intro atMostOne
  have reached : ((machine 1).run .initial lateCopyRun).isSome = true := by decide
  have log : (((machine 1).run .initial lateCopyRun).map fun s =>
      ((s.actions.lookup 1).map PreparedAction.id, (s.actions.lookup 2).map PreparedAction.id)) =
      some (some "act_a", some "act_a") := by decide
  obtain ⟨s, final⟩ := Option.isSome_iff_exists.mp reached
  rw [final] at log
  obtain ⟨first, second⟩ := Prod.mk.inj (Option.some.inj log)
  obtain ⟨action, atOne, firstId⟩ := Option.map_eq_some_iff.mp first
  obtain ⟨duplicate, atTwo, secondId⟩ := Option.map_eq_some_iff.mp second
  exact absurd (atMostOne 1 lateCopyRun s final 1 2 action duplicate atOne atTwo
    (firstId.trans secondId.symm)) (by decide)

/-- A timed-out write that lands before the retry arrives: the retry finds it
durable. -/
def lateFirstRun : List Event :=
  [.plan [noteWrite "act_a"], .claim, .dispatch, .abandon 0, .rebuild, .land 0,
    .plan [noteWrite "act_a"], .claim]

theorem atMostOneCopy_lateFirstRun :
    (((machine 1).run .initial lateFirstRun).get (by decide)).AtMostOneCopy :=
  atMostOneCopy_of_run (by decide) (Option.some_get _).symm

end StorageTree

end Ebb.Server
