import Ebb.Server.Writer

namespace Ebb.Server

namespace StorageTree

/-! What one step of the storage tree can do, and the bookkeeping every run keeps:
references are unique and an outstanding write belongs to the batch it was
dispatched for. -/

/-! ## Inversion -/

def claimedBatch (s : StorageTree) (fresh : List PreparedAction) : Batch where
  ref := s.nextRef
  gsnStart := s.counter + 1
  prepared := fresh
  generation := s.nextGeneration
  phase := .prepared

def freshActions (s : StorageTree) (tagged : List PreparedAction) : List PreparedAction :=
  tagged.filter fun action =>
    action.id ∈ (InFlightActions.claim (tagged.map PreparedAction.id) s.inFlight).1

def claimedTable (s : StorageTree) (tagged : List PreparedAction) : List String :=
  (InFlightActions.claim (tagged.map PreparedAction.id) s.inFlight).2

def survivors (s : StorageTree) (burst : List PreparedAction) : List PreparedAction :=
  dropCommitted s.dedup (uniqById (burst.filter fun action => action.affectedEntities ≠ []))

/-- Every way a step can succeed, with its guards and its successor state. -/
inductive StepCase (s : StorageTree) : Event → StorageTree → Prop
  | plan (burst : List PreparedAction) (idle : s.task = .idle) :
      StepCase s (.plan burst) { s with task := .planning (s.survivors burst) }
  | claimNothing (tagged : List PreparedAction) (planning : s.task = .planning tagged)
      (nothing : s.freshActions tagged = []) :
      StepCase s .claim { s with task := .idle, inFlight := s.claimedTable tagged }
  | claim (tagged : List PreparedAction) (planning : s.task = .planning tagged)
      (something : s.freshActions tagged ≠ []) :
      StepCase s .claim { s with
        task := .idle
        inFlight := s.claimedTable tagged
        counter := s.counter + (s.freshActions tagged).length
        marks := DirtyTracker.markPendingBatch
          (s.claimedBatch (s.freshActions tagged)).entities s.nextGeneration s.marks
        nextGeneration := s.nextGeneration + 1
        nextRef := s.nextRef + 1
        batches := s.batches ++ [s.claimedBatch (s.freshActions tagged)] }
  | dispatch (batch : Batch) (idle : s.task = .idle) (member : batch ∈ s.batches)
      (prepared : batch.phase = .prepared) :
      StepCase s .dispatch { s with
        batches := CommitPipeline.setPhase s.batches batch.ref .committing
        jobs := s.jobs ++
          [{ ref := batch.ref, gsnStart := batch.gsnStart, prepared := batch.prepared }] }
  | land (job : Job) (member : job ∈ s.jobs) :
      StepCase s (.land job.ref) { s.write job with
        jobs := s.jobs.filter fun other => other.ref ≠ job.ref
        acks := job.ref :: s.acks }
  | reject (batch : Batch) (idle : s.task = .idle) (member : batch ∈ s.batches)
      (outstanding : batch.ref ∈ s.jobs.map Job.ref) (committing : batch.phase = .committing) :
      StepCase s (.reject batch.ref) { s.abandonBatch batch with
        jobs := s.jobs.filter fun job => job.ref ≠ batch.ref }
  | ack (batch : Batch) (idle : s.task = .idle) (member : batch ∈ s.batches)
      (acked : batch.ref ∈ s.acks) (committing : batch.phase = .committing) :
      StepCase s (.ack batch.ref) { s with
        batches := CommitPipeline.setPhase s.batches batch.ref .committed
        inFlight := InFlightActions.release batch.actionIds s.inFlight
        frontier := resolve batch s.frontier
        acks := s.acks.filter (· ≠ batch.ref) }
  | apply (batch : Batch) (rest : List Batch) (idle : s.task = .idle)
      (oldest : s.batches = batch :: rest) (committed : batch.phase = .committed) :
      StepCase s .apply { s with
        batches := rest
        marks := DirtyTracker.markDirtyBatch batch.entities s.nextGeneration s.marks
        nextGeneration := s.nextGeneration + 1 }
  | abandon (batch : Batch) (idle : s.task = .idle) (member : batch ∈ s.batches) :
      StepCase s (.abandon batch.ref) (s.abandonBatch batch)
  | rebuilt (rebuilding : s.task = .rebuilding []) :
      StepCase s .rebuild { s with task := .idle }
  | rebuildGone (ref : Nat) (refs : List Nat)
      (busy : s.task = .rebuilding (ref :: refs) ∨ s.task = .remarking ref refs)
      (gone : CommitPipeline.get? s.batches ref = none) :
      StepCase s .rebuild { s with task := .rebuilding refs }
  | rebuildClear (batch : Batch) (refs : List Nat)
      (rebuilding : s.task = .rebuilding (batch.ref :: refs)) (member : batch ∈ s.batches) :
      StepCase s .rebuild { s with
        marks := DirtyTracker.clearPendingBatch batch.entities batch.generation s.marks
        task := .remarking batch.ref refs }
  | rebuildMark (batch : Batch) (refs : List Nat)
      (remarking : s.task = .remarking batch.ref refs) (member : batch ∈ s.batches) :
      StepCase s .rebuild { s with
        marks := DirtyTracker.markPendingBatch batch.entities s.nextGeneration s.marks
        nextGeneration := s.nextGeneration + 1
        batches := s.batches.map fun other =>
          if other.ref = batch.ref then { other with generation := s.nextGeneration }
          else other
        task := .rebuilding refs }
  | startRead (entity : String) : StepCase s (.startRead entity) (s.startRead entity)
  | advanceRead (index : Nat) (reader : Reader) (phase : ReaderPhase)
      (rows : String → Option Nat) (marks : DirtyTracker.Marks)
      (found : s.readers[index]? = some reader)
      (stepped : s.readStep reader = some (phase, rows, marks)) :
      StepCase s (.advanceRead index) { s with
        rows
        marks
        readers := s.readers.set index { reader with phase } }
  | handPosition : StepCase s .handPosition s.handPosition
  | restartWriter : StepCase s .restartWriter s.restartWriter
  | restartWatermarkTracker : StepCase s .restartWatermarkTracker s.restartWatermarkTracker
  | restartSystemCache : StepCase s .restartSystemCache s.restartSystemCache
  | restartNode : StepCase s .restartNode s.restartNode

variable {s next : StorageTree} {ref : Nat}

private theorem claim_cases (stepped : s.claim = some next) :
    StepCase s .claim next := by
  unfold claim at stepped
  split at stepped
  · next tagged planning =>
      simp only at stepped
      split at stepped
      · next nothing =>
          cases stepped
          exact .claimNothing tagged planning nothing
      · next something =>
          cases stepped
          have start : s.counter + (s.freshActions tagged).length -
              (s.freshActions tagged).length + 1 = s.counter + 1 := by omega
          have built := StepCase.claim tagged planning something
          simp only [claimedBatch, ← start] at built
          exact built
  · cases stepped

private theorem dispatch_cases (stepped : s.dispatch = some next) :
    StepCase s .dispatch next := by
  unfold dispatch at stepped
  split at stepped
  · next idle =>
      split at stepped
      · cases stepped
      · next batch ready =>
          cases stepped
          have spec := CommitPipeline.readyBatch_spec ready
          exact .dispatch batch idle spec.1 spec.2
  · cases stepped

private theorem land_cases (stepped : s.land ref = some next) : StepCase s (.land ref) next := by
  unfold land at stepped
  split at stepped
  · cases stepped
  · next job found =>
      cases stepped
      have same : job.ref = ref := by simpa using List.find?_some found
      subst same
      exact .land job (List.mem_of_find?_eq_some found)

private theorem reject_cases (stepped : s.reject ref = some next) : StepCase s
    (.reject ref) next := by
  unfold reject at stepped
  split at stepped
  · next guards =>
      split at stepped
      · next batch found =>
          obtain ⟨member, same⟩ := CommitPipeline.get?_spec found
          subst same
          split at stepped
          · next committing =>
              cases stepped
              exact .reject batch guards.1 member guards.2 committing
          · cases stepped
      · cases stepped
  · cases stepped

private theorem ack_cases (stepped : s.ack ref = some next) : StepCase s (.ack ref) next := by
  unfold ack at stepped
  split at stepped
  · next guards =>
      split at stepped
      · next batch found =>
          obtain ⟨member, same⟩ := CommitPipeline.get?_spec found
          subst same
          split at stepped
          · next committing =>
              cases stepped
              exact .ack batch guards.1 member guards.2 committing
          · cases stepped
      · cases stepped
  · cases stepped

private theorem apply_cases (stepped : s.apply = some next) :
    StepCase s .apply next := by
  unfold apply at stepped
  split at stepped
  · next batch rest idle oldest =>
      split at stepped
      · next committed =>
          cases stepped
          exact .apply batch rest idle oldest committed
      · cases stepped
  · cases stepped

private theorem abandon_cases (stepped : s.abandon ref = some next)
    : StepCase s (.abandon ref) next := by
  unfold abandon at stepped
  split at stepped
  · next idle =>
      obtain ⟨batch, found, equal⟩ := Option.map_eq_some_iff.mp stepped
      obtain ⟨member, same⟩ := CommitPipeline.get?_spec found
      subst same equal
      exact .abandon batch idle member
  · cases stepped

private theorem rebuild_cases (stepped : s.rebuild = some next) :
    StepCase s .rebuild next := by
  unfold rebuild at stepped
  split at stepped
  · next rebuilding =>
      cases stepped
      exact .rebuilt rebuilding
  · next ref refs rebuilding =>
      split at stepped
      · next gone =>
          cases stepped
          exact .rebuildGone ref refs (.inl rebuilding) gone
      · next batch found =>
          cases stepped
          obtain ⟨member, same⟩ := CommitPipeline.get?_spec found
          subst same
          exact .rebuildClear batch refs rebuilding member
  · next ref refs remarking =>
      split at stepped
      · next gone =>
          cases stepped
          exact .rebuildGone ref refs (.inr remarking) gone
      · next batch found =>
          cases stepped
          obtain ⟨member, same⟩ := CommitPipeline.get?_spec found
          subst same
          exact .rebuildMark batch refs remarking member
  · cases stepped

theorem step_cases {maxInFlight : Nat} {event : Event}
    (stepped : (machine maxInFlight).step s event = some next) : StepCase s event next := by
  cases event with
  | plan burst =>
      obtain ⟨guards, equal⟩ := Option.ite_none_right_eq_some.mp
        (show s.plan maxInFlight burst = some next from stepped)
      cases equal
      exact .plan burst guards.1
  | claim => exact claim_cases stepped
  | dispatch => exact dispatch_cases stepped
  | land ref => exact land_cases stepped
  | reject ref => exact reject_cases stepped
  | ack ref => exact ack_cases stepped
  | apply => exact apply_cases stepped
  | abandon ref => exact abandon_cases stepped
  | rebuild => exact rebuild_cases stepped
  | startRead entity =>
      cases stepped
      exact .startRead entity
  | advanceRead index =>
      change s.advanceRead index = some next at stepped
      unfold advanceRead at stepped
      split at stepped
      · cases stepped
      · next reader found =>
          obtain ⟨⟨phase, rows, marks⟩, read, equal⟩ := Option.map_eq_some_iff.mp stepped
          cases equal
          exact .advanceRead index reader phase rows marks found read
  | handPosition =>
      cases stepped
      exact .handPosition
  | restartWriter =>
      cases stepped
      exact .restartWriter
  | restartWatermarkTracker =>
      cases stepped
      exact .restartWatermarkTracker
  | restartSystemCache =>
      cases stepped
      exact .restartSystemCache
  | restartNode =>
      cases stepped
      exact .restartNode

/-! ## The durable write -/

theorem le_foldr_max {gsns : List Nat} {gsn : Nat} (member : gsn ∈ gsns) :
    gsn ≤ gsns.foldr max 0 := by
  induction gsns with
  | nil => cases member
  | cons head rest induction =>
      rcases List.mem_cons.mp member with equal | member
      · exact equal ▸ Nat.le_max_left _ _
      · exact Nat.le_trans (induction member) (Nat.le_max_right _ _)

/-- An Action id has a row in the dedup index. -/
def Durable (s : StorageTree) (id : String) : Prop := (s.dedup.lookup id).isSome = true

theorem lookup_write {job : Job} {gsn : Nat} {action : PreparedAction}
    (found : (s.write job).actions.lookup gsn = some action) :
    (gsn, action) ∈ gsnEntries job.gsnStart job.prepared ∨
      s.actions.lookup gsn = some action := by
  rcases lookup_foldl_setEntry Prod.fst Prod.snd found with ⟨entry, member, rfl, rfl⟩ | earlier
  · exact .inl member
  · exact .inr earlier

theorem lookup_write_of_ne {job : Job} {gsn : Nat}
    (outside : gsn < job.gsnStart ∨ job.gsnStart + job.prepared.length ≤ gsn) :
    (s.write job).actions.lookup gsn = s.actions.lookup gsn := by
  apply lookup_foldl_setEntry_of_notMem Prod.fst Prod.snd
  intro entry member equal
  have bounds := (mem_gsnEntries member).2
  omega

theorem durable_write (s : StorageTree) (job : Job) (id : String) :
    (s.write job).Durable id ↔ id ∈ job.prepared.map PreparedAction.id ∨ s.Durable id := by
  have rows := lookup_foldl_setEntry_isSome (fun entry : Nat × PreparedAction => entry.2.id)
    Prod.fst (gsnEntries job.gsnStart job.prepared) s.dedup id
  refine rows.trans (or_congr_left ⟨?_, ?_⟩)
  · rintro ⟨entry, member, same⟩
    exact List.mem_map.mpr ⟨entry.2, (mem_gsnEntries member).1, same⟩
  · intro listed
    obtain ⟨action, member, same⟩ := List.mem_map.mp listed
    obtain ⟨gsn, entry⟩ := @mem_prepared_of_gsnEntries job.gsnStart _ _ member
    exact ⟨(gsn, action), entry, same⟩

/-! ## Bookkeeping -/

end StorageTree

def WriterTask.refs : WriterTask → List Nat
  | .idle => []
  | .planning _ => []
  | .rebuilding refs => refs
  | .remarking ref refs => ref :: refs

namespace StorageTree

structure Tidy (s : StorageTree) : Prop where
  batchRefs : ∀ batch ∈ s.batches, batch.ref < s.nextRef
  refsNodup : (s.batches.map Batch.ref).Nodup
  nonempty : ∀ batch ∈ s.batches, batch.prepared ≠ []
  jobRefs : ∀ job ∈ s.jobs, job.ref < s.nextRef
  jobBatch : ∀ job ∈ s.jobs, ∀ batch ∈ s.batches, batch.ref = job.ref →
    batch.phase = .committing ∧ batch.prepared = job.prepared ∧ batch.gsnStart = job.gsnStart
  ackRefs : ∀ ref ∈ s.acks, ref < s.nextRef ∧ ref ∉ s.jobs.map Job.ref
  ackBatch : ∀ ref ∈ s.acks, ∀ batch ∈ s.batches, batch.ref = ref →
    batch.phase = .committing
  rebuildPrepared : ∀ ref ∈ s.task.refs, ∀ batch ∈ s.batches, batch.ref = ref →
    batch.phase = .prepared

theorem tidy_initial : Tidy .initial := by
  constructor <;> simp [initial, WriterTask.refs]

theorem Tidy.mono {s next : StorageTree} (tidy : Tidy s)
    (batches : next.batches.Sublist s.batches) (jobs : next.jobs ⊆ s.jobs)
    (acks : next.acks ⊆ s.acks) (nextRef : next.nextRef = s.nextRef)
    (refs : ∀ ref ∈ next.task.refs, ∀ batch ∈ next.batches, batch.ref = ref →
      batch.phase = .prepared) : Tidy next where
  batchRefs batch member := nextRef ▸ tidy.batchRefs batch (batches.subset member)
  refsNodup := tidy.refsNodup.sublist (batches.map Batch.ref)
  nonempty batch member := tidy.nonempty batch (batches.subset member)
  jobRefs job member := nextRef ▸ tidy.jobRefs job (jobs member)
  jobBatch job inJobs batch member :=
    tidy.jobBatch job (jobs inJobs) batch (batches.subset member)
  ackRefs ref member := by
    have old := tidy.ackRefs ref (acks member)
    refine ⟨nextRef ▸ old.1, fun listed => old.2 ?_⟩
    obtain ⟨job, inJobs, same⟩ := List.mem_map.mp listed
    exact List.mem_map.mpr ⟨job, jobs inJobs, same⟩
  ackBatch ref listed batch member :=
    tidy.ackBatch ref (acks listed) batch (batches.subset member)
  rebuildPrepared := refs

variable {s : StorageTree} {batch : Batch}

theorem Tidy.eq_of_ref (tidy : Tidy s) {left right : Batch} (leftOpen : left ∈ s.batches)
    (rightOpen : right ∈ s.batches) (same : left.ref = right.ref) : left = right :=
  List.inj_on_of_nodup_map tidy.refsNodup leftOpen rightOpen same

theorem prune_sublist (batches : List Batch) (ref : Nat) :
    (CommitPipeline.prune batches ref).Sublist batches :=
  List.filter_sublist

private theorem Tidy.abandonBatch (tidy : Tidy s) :
    Tidy (s.abandonBatch batch) := by
  refine @Tidy.mono s (s.abandonBatch batch) tidy (prune_sublist s.batches batch.ref)
    (List.Subset.refl _) (List.Subset.refl _) rfl ?_
  intro ref listed other member same
  obtain ⟨kept, inKept, keptRef⟩ := List.mem_map.mp listed
  have spec := List.mem_filter.mp inKept
  have equal : other = kept := tidy.eq_of_ref
    ((prune_sublist _ _).subset member) ((prune_sublist _ _).subset spec.1)
    (same.trans keptRef.symm)
  have holds : kept.phase = .prepared ∧ batch.gsnStart < kept.gsnStart := by
    simpa using spec.2
  exact equal ▸ holds.1

private theorem map_ref_setPhase (batches : List Batch) (ref : Nat) (phase : Phase) :
    (CommitPipeline.setPhase batches ref phase).map Batch.ref = batches.map Batch.ref := by
  rw [CommitPipeline.setPhase, List.map_map]
  apply List.map_congr_left
  intro batch _
  simp only [Function.comp]
  split <;> rfl

theorem mem_setPhase_core {batches : List Batch} {ref : Nat} {phase : Phase}
    (member : batch ∈ CommitPipeline.setPhase batches ref phase) :
    ∃ old ∈ batches, batch.ref = old.ref ∧ batch.prepared = old.prepared ∧
      batch.gsnStart = old.gsnStart ∧ batch.generation = old.generation ∧
      (old.ref = ref → batch.phase = phase) ∧ (old.ref ≠ ref → batch.phase = old.phase) := by
  obtain ⟨old, inBatches, equal⟩ := CommitPipeline.mem_setPhase member
  refine ⟨old, inBatches, ?_⟩
  subst equal
  by_cases same : old.ref = ref <;> simp [same]

private theorem Tidy.claim (tidy : Tidy s) {fresh : List PreparedAction} (something : fresh ≠ [])
    {inFlight : List String} {counter : Nat} {marks : DirtyTracker.Marks} :
    Tidy { s with
      task := .idle
      inFlight
      counter
      marks
      nextGeneration := s.nextGeneration + 1
      nextRef := s.nextRef + 1
      batches := s.batches ++ [s.claimedBatch fresh] } where
  batchRefs batch member := by
    rcases List.mem_append.mp member with old | new
    · exact Nat.lt_succ_of_lt (tidy.batchRefs batch old)
    · rw [List.mem_singleton.mp new]
      exact Nat.lt_succ_self _
  refsNodup := by
    rw [List.map_append, List.map_singleton, List.nodup_append]
    refine ⟨tidy.refsNodup, List.nodup_singleton _, ?_⟩
    intro ref listed other new
    obtain ⟨batch, member, same⟩ := List.mem_map.mp listed
    rw [← same, List.mem_singleton.mp new]
    exact Nat.ne_of_lt (tidy.batchRefs batch member)
  nonempty batch member := by
    rcases List.mem_append.mp member with old | new
    · exact tidy.nonempty batch old
    · rw [List.mem_singleton.mp new]
      exact something
  jobRefs job member := Nat.lt_succ_of_lt (tidy.jobRefs job member)
  jobBatch job inJobs batch member same := by
    rcases List.mem_append.mp member with old | new
    · exact tidy.jobBatch job inJobs batch old same
    · rw [List.mem_singleton.mp new] at same
      exact absurd same.symm (Nat.ne_of_lt (tidy.jobRefs job inJobs))
  ackRefs ref member :=
    ⟨Nat.lt_succ_of_lt (tidy.ackRefs ref member).1, (tidy.ackRefs ref member).2⟩
  ackBatch ref listed batch member same := by
    rcases List.mem_append.mp member with old | new
    · exact tidy.ackBatch ref listed batch old same
    · rw [List.mem_singleton.mp new] at same
      exact absurd same.symm (Nat.ne_of_lt (tidy.ackRefs ref listed).1)
  rebuildPrepared ref member := by simp [WriterTask.refs] at member

private theorem Tidy.dispatch (tidy : Tidy s) (idle : s.task = .idle) (member : batch ∈ s.batches)
    (prepared : batch.phase = .prepared) :
    Tidy { s with
      batches := CommitPipeline.setPhase s.batches batch.ref .committing
      jobs := s.jobs ++
        [{ ref := batch.ref, gsnStart := batch.gsnStart, prepared := batch.prepared }] } where
  batchRefs other inBatches := by
    obtain ⟨old, inOld, ref, -⟩ := mem_setPhase_core inBatches
    exact ref ▸ tidy.batchRefs old inOld
  refsNodup := map_ref_setPhase s.batches _ _ ▸ tidy.refsNodup
  nonempty other inBatches := by
    obtain ⟨old, inOld, -, actions, -⟩ := mem_setPhase_core inBatches
    exact actions ▸ tidy.nonempty old inOld
  jobRefs job inJobs := by
    rcases List.mem_append.mp inJobs with old | new
    · exact tidy.jobRefs job old
    · rw [List.mem_singleton.mp new]
      exact tidy.batchRefs batch member
  jobBatch job inJobs other inBatches same := by
    obtain ⟨old, inOld, ref, actions, start, -, changed, kept⟩ := mem_setPhase_core inBatches
    rcases List.mem_append.mp inJobs with earlier | new
    · have spec := tidy.jobBatch job earlier old inOld (ref ▸ same)
      have different : old.ref ≠ batch.ref := by
        intro equal
        rw [tidy.eq_of_ref inOld member equal, prepared] at spec
        exact absurd spec.1 (by decide)
      exact ⟨(kept different).trans spec.1, actions.trans spec.2.1, start.trans spec.2.2⟩
    · rw [List.mem_singleton.mp new] at same ⊢
      have equal := tidy.eq_of_ref inOld member (ref ▸ same)
      exact ⟨changed (ref ▸ same), actions.trans (equal ▸ rfl), start.trans (equal ▸ rfl)⟩
  ackRefs ref listed := by
    refine ⟨(tidy.ackRefs ref listed).1, fun inJobs => ?_⟩
    rw [List.map_append, List.mem_append] at inJobs
    rcases inJobs with earlier | new
    · exact (tidy.ackRefs ref listed).2 earlier
    · have same : ref = batch.ref := by simpa using new
      have phase := tidy.ackBatch ref listed batch member same.symm
      exact absurd (prepared.symm.trans phase) (by decide)
  ackBatch ref listed other inBatches same := by
    obtain ⟨old, inOld, oldRef, -, -, -, changed, kept⟩ := mem_setPhase_core inBatches
    by_cases equal : old.ref = batch.ref
    · exact changed equal
    · exact (kept equal).trans (tidy.ackBatch ref listed old inOld (oldRef ▸ same))
  rebuildPrepared ref listed := by simp [idle, WriterTask.refs] at listed

private theorem Tidy.land (tidy : Tidy s) {job : Job} (member : job ∈ s.jobs) :
    Tidy { s.write job with
      jobs := s.jobs.filter fun other => other.ref ≠ job.ref
      acks := job.ref :: s.acks } where
  batchRefs := tidy.batchRefs
  refsNodup := tidy.refsNodup
  nonempty := tidy.nonempty
  jobRefs other inJobs := tidy.jobRefs other (List.mem_of_mem_filter inJobs)
  jobBatch other inJobs := tidy.jobBatch other (List.mem_of_mem_filter inJobs)
  ackRefs ref listed := by
    rcases List.mem_cons.mp listed with landed | earlier
    · refine ⟨landed ▸ tidy.jobRefs job member, fun inJobs => ?_⟩
      obtain ⟨other, kept, same⟩ := List.mem_map.mp inJobs
      have different : other.ref ≠ job.ref := by simpa using (List.mem_filter.mp kept).2
      exact different (same.trans landed)
    · refine ⟨(tidy.ackRefs ref earlier).1, fun inJobs => (tidy.ackRefs ref earlier).2 ?_⟩
      obtain ⟨other, kept, same⟩ := List.mem_map.mp inJobs
      exact List.mem_map.mpr ⟨other, List.mem_of_mem_filter kept, same⟩
  ackBatch ref listed batch inBatches same := by
    rcases List.mem_cons.mp listed with landed | earlier
    · exact (tidy.jobBatch job member batch inBatches (same.trans landed)).1
    · exact tidy.ackBatch ref earlier batch inBatches same
  rebuildPrepared := tidy.rebuildPrepared

private theorem Tidy.ack (tidy : Tidy s) (idle : s.task = .idle) (acked : batch.ref ∈ s.acks)
    {inFlight : List String} {frontier : WatermarkTracker} :
    Tidy { s with
      batches := CommitPipeline.setPhase s.batches batch.ref .committed
      inFlight
      frontier
      acks := s.acks.filter (· ≠ batch.ref) } where
  batchRefs other inBatches := by
    obtain ⟨old, inOld, ref, -⟩ := mem_setPhase_core inBatches
    exact ref ▸ tidy.batchRefs old inOld
  refsNodup := map_ref_setPhase s.batches _ _ ▸ tidy.refsNodup
  nonempty other inBatches := by
    obtain ⟨old, inOld, -, actions, -⟩ := mem_setPhase_core inBatches
    exact actions ▸ tidy.nonempty old inOld
  jobRefs := tidy.jobRefs
  jobBatch job inJobs other inBatches same := by
    obtain ⟨old, inOld, ref, actions, start, -, -, kept⟩ := mem_setPhase_core inBatches
    have spec := tidy.jobBatch job inJobs old inOld (ref ▸ same)
    have different : old.ref ≠ batch.ref := by
      intro equal
      exact (tidy.ackRefs batch.ref acked).2
        (List.mem_map.mpr ⟨job, inJobs, same.symm.trans (ref.trans equal)⟩)
    exact ⟨(kept different).trans spec.1, actions.trans spec.2.1, start.trans spec.2.2⟩
  ackRefs ref listed := tidy.ackRefs ref (List.mem_of_mem_filter listed)
  ackBatch ref listed other inBatches same := by
    obtain ⟨old, inOld, oldRef, -, -, -, -, kept⟩ := mem_setPhase_core inBatches
    have spec := List.mem_filter.mp listed
    have different : ref ≠ batch.ref := by simpa using spec.2
    have oldSame : old.ref = ref := oldRef ▸ same
    exact (kept (oldSame ▸ different)).trans (tidy.ackBatch ref spec.1 old inOld oldSame)
  rebuildPrepared ref listed := by simp [idle, WriterTask.refs] at listed

private theorem Tidy.rebuildMark (tidy : Tidy s) {refs : List Nat}
    (remarking : s.task = .remarking batch.ref refs) {marks : DirtyTracker.Marks} :
    Tidy { s with
      marks
      nextGeneration := s.nextGeneration + 1
      batches := s.batches.map fun other =>
        if other.ref = batch.ref then { other with generation := s.nextGeneration }
        else other
      task := .rebuilding refs } := by
  have core : ∀ other ∈ s.batches.map (fun other =>
      if other.ref = batch.ref then { other with generation := s.nextGeneration } else other),
      ∃ old ∈ s.batches, other.ref = old.ref ∧ other.prepared = old.prepared ∧
        other.gsnStart = old.gsnStart ∧ other.phase = old.phase := by
    intro other inBatches
    obtain ⟨old, inOld, equal⟩ := List.mem_map.mp inBatches
    refine ⟨old, inOld, ?_⟩
    subst equal
    split <;> simp
  constructor
  · intro other inBatches
    obtain ⟨old, inOld, ref, -⟩ := core other inBatches
    exact ref ▸ tidy.batchRefs old inOld
  · have same : (s.batches.map fun other => if other.ref = batch.ref then
        { other with generation := s.nextGeneration } else other).map Batch.ref =
        s.batches.map Batch.ref := by
      rw [List.map_map]
      apply List.map_congr_left
      intro other _
      simp only [Function.comp]
      split <;> rfl
    exact same ▸ tidy.refsNodup
  · intro other inBatches
    obtain ⟨old, inOld, -, actions, -⟩ := core other inBatches
    exact actions ▸ tidy.nonempty old inOld
  · exact tidy.jobRefs
  · intro job inJobs other inBatches same
    obtain ⟨old, inOld, ref, actions, start, phase⟩ := core other inBatches
    have spec := tidy.jobBatch job inJobs old inOld (ref ▸ same)
    exact ⟨phase.trans spec.1, actions.trans spec.2.1, start.trans spec.2.2⟩
  · exact tidy.ackRefs
  · intro ref listed other inBatches same
    obtain ⟨old, inOld, oldRef, -, -, phase⟩ := core other inBatches
    exact phase.trans (tidy.ackBatch ref listed old inOld (oldRef ▸ same))
  · intro ref listed other inBatches same
    obtain ⟨old, inOld, oldRef, -, -, phase⟩ := core other inBatches
    have pending : ref ∈ s.task.refs := by
      rw [remarking]
      exact List.mem_cons_of_mem _ listed
    exact phase.trans (tidy.rebuildPrepared ref pending old inOld (oldRef ▸ same))

theorem Tidy.step {next : StorageTree} {event : Event} (tidy : Tidy s)
    (stepped : StepCase s event next) : Tidy next := by
  have keep : ∀ {after : StorageTree}, after.batches = s.batches → after.jobs = s.jobs →
      after.acks = s.acks → after.nextRef = s.nextRef →
      after.task.refs ⊆ s.task.refs → Tidy after := by
    intro after batches jobs acks nextRef refs
    exact tidy.mono (batches ▸ List.Sublist.refl _) (jobs ▸ List.Subset.refl _)
      (acks ▸ List.Subset.refl _) nextRef fun ref listed batch member =>
        tidy.rebuildPrepared ref (refs listed) batch (batches ▸ member)
  have forget : ∀ {after : StorageTree}, after.batches = [] → after.jobs ⊆ s.jobs →
      after.acks = [] → after.nextRef = s.nextRef → Tidy after := by
    intro after batches jobs acks nextRef
    exact tidy.mono (batches ▸ List.nil_sublist _) jobs (acks ▸ List.nil_subset _) nextRef
      fun ref listed batch member => by simp [batches] at member
  cases stepped with
  | plan burst idle => exact keep rfl rfl rfl rfl (List.nil_subset _)
  | claimNothing tagged planning nothing => exact keep rfl rfl rfl rfl (List.nil_subset _)
  | claim tagged planning something => exact tidy.claim something
  | dispatch batch idle member prepared => exact tidy.dispatch idle member prepared
  | land job member => exact tidy.land member
  | reject batch idle member outstanding committing =>
      exact tidy.abandonBatch.mono (List.Sublist.refl _) (List.filter_subset_self _)
        (List.Subset.refl _) rfl tidy.abandonBatch.rebuildPrepared
  | ack batch idle member acked committing => exact tidy.ack idle acked
  | apply batch rest idle oldest committed =>
      exact tidy.mono (oldest ▸ List.sublist_cons_self batch rest) (List.Subset.refl _)
        (List.Subset.refl _) rfl fun ref listed => by simp [idle, WriterTask.refs] at listed
  | abandon batch idle member => exact tidy.abandonBatch
  | rebuilt rebuilding => exact keep rfl rfl rfl rfl (List.nil_subset _)
  | rebuildGone ref refs busy gone =>
      refine keep rfl rfl rfl rfl ?_
      rcases busy with busy | busy <;> rw [busy] <;> exact List.subset_cons_self ref refs
  | rebuildClear batch refs rebuilding member =>
      exact keep rfl rfl rfl rfl (rebuilding ▸ List.Subset.refl _)
  | rebuildMark batch refs remarking member => exact tidy.rebuildMark remarking
  | startRead entity => exact keep rfl rfl rfl rfl (List.Subset.refl _)
  | advanceRead index reader phase rows marks found stepped =>
      exact keep rfl rfl rfl rfl (List.Subset.refl _)
  | handPosition => exact keep rfl rfl rfl rfl (List.Subset.refl _)
  | restartWriter => exact forget rfl (List.Subset.refl _) rfl rfl
  | restartWatermarkTracker => exact forget rfl (List.Subset.refl _) rfl rfl
  | restartSystemCache => exact forget rfl (List.Subset.refl _) rfl rfl
  | restartNode => exact forget rfl (List.nil_subset _) rfl rfl

end StorageTree

end Ebb.Server
