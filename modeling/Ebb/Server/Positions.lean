import Ebb.Server.WriterSteps

namespace Ebb.Server

namespace StorageTree

/-! The positions handed to clients against the Actions that become durable later.
The frontier passes only resolved ranges, so an open batch always stays above it;
what can still fall below a position is a late write, or a GSN claimed again from a
counter that was seeded too low. -/

/-- The Action at `gsn` became durable between two states. -/
def BecameDurable (before after : StorageTree) (gsn : Nat) : Prop :=
  after.actions.lookup gsn ≠ before.actions.lookup gsn

/-- A step that seeds the GSN counter from the durable log again. -/
def reseedsCounter : Event → Bool
  | .restartSystemCache | .restartNode => true
  | _ => false

/-- A write whose batch was already released lands above the frontier, and the
counter is seeded again only while no position handed out exceeds the durable log. -/
def FrontierKept (s : StorageTree) (event : Event) : Prop :=
  (∀ job ∈ s.landingJobs event, CommitPipeline.get? s.batches job.ref = none →
    s.frontier.watermark < job.gsnStart) ∧
  (reseedsCounter event = true → ∀ position ∈ s.handed, position ≤ maxGsn s.actions)

instance (s : StorageTree) (event : Event) : Decidable (s.FrontierKept event) :=
  inferInstanceAs (Decidable ((∀ job ∈ s.landingJobs event, _ → _) ∧ (_ → _)))

/-! ## The frontier and the open ranges -/

def Batch.Covers (batch : Batch) (gsn : Nat) : Prop :=
  batch.gsnStart ≤ gsn ∧ gsn < batch.gsnStart + batch.prepared.length

structure FrontierSafe (s : StorageTree) : Prop where
  unresolved : ∀ batch ∈ s.batches, batch.phase ≠ .committed →
    ∀ gsn, Batch.Covers batch gsn → ¬ s.frontier.Resolved gsn
  disjoint : ∀ left ∈ s.batches, ∀ right ∈ s.batches, left.ref ≠ right.ref →
    ∀ gsn, Batch.Covers left gsn → ¬ Batch.Covers right gsn
  claimed : ∀ batch ∈ s.batches, ∀ gsn, Batch.Covers batch gsn → gsn ≤ s.counter
  resolved : ∀ gsn, s.frontier.Resolved gsn → gsn ≤ s.counter
  handed : ∀ position ∈ s.handed, position ≤ s.frontier.watermark

theorem frontierSafe_initial : FrontierSafe .initial := by
  constructor <;> simp [initial, WatermarkTracker.Resolved]

theorem resolve_spec {batch : Batch} (frontier : WatermarkTracker)
    (nonempty : batch.prepared ≠ []) :
    frontier.watermark ≤ (resolve batch frontier).watermark ∧
      ∀ gsn, (resolve batch frontier).Resolved gsn →
        frontier.Resolved gsn ∨ Batch.Covers batch gsn := by
  have spec := WatermarkTracker.advanceWatermark_spec
    (frontier.markRangeCommitted batch.gsnStart batch.gsnEnd)
  refine ⟨spec.1, fun gsn resolved => ?_⟩
  refine (WatermarkTracker.resolved_mark (spec.2 gsn resolved)).imp_right fun covers => ?_
  have some := List.length_pos_iff.mpr nonempty
  simp only [Batch.gsnEnd] at covers
  exact ⟨covers.1, by omega⟩

variable {s next : StorageTree} {event : Event}

theorem FrontierSafe.relabel (safe : FrontierSafe s)
    (batches : ∀ batch ∈ next.batches, ∃ old ∈ s.batches, batch.ref = old.ref ∧ batch.prepared =
      old.prepared ∧ batch.gsnStart = old.gsnStart ∧
      (batch.phase ≠ .committed → old.phase ≠ .committed))
    (counter : next.counter = s.counter) (frontier : next.frontier = s.frontier)
    (handed : ∀ position ∈ next.handed, position ≤ s.frontier.watermark) :
    FrontierSafe next := by
  have covers : ∀ {batch old : Batch}, batch.prepared = old.prepared →
      batch.gsnStart = old.gsnStart → ∀ gsn, Batch.Covers batch gsn → Batch.Covers old gsn := by
    intro batch old prepared start gsn holds
    rwa [Batch.Covers, ← prepared, ← start]
  constructor
  · intro batch member open_ gsn holds
    obtain ⟨old, inOld, -, prepared, start, phase⟩ := batches batch member
    rw [frontier]
    exact safe.unresolved old inOld (phase open_) gsn (covers prepared start gsn holds)
  · intro left leftOpen right rightOpen different gsn inLeft inRight
    obtain ⟨oldLeft, leftMember, leftRef, leftPrepared, leftStart, -⟩ := batches left leftOpen
    obtain ⟨oldRight, rightMember, rightRef, rightPrepared, rightStart, -⟩ :=
      batches right rightOpen
    exact safe.disjoint oldLeft leftMember oldRight rightMember
      (leftRef ▸ rightRef ▸ different) gsn (covers leftPrepared leftStart gsn inLeft)
      (covers rightPrepared rightStart gsn inRight)
  · intro batch member gsn holds
    obtain ⟨old, inOld, -, prepared, start, -⟩ := batches batch member
    rw [counter]
    exact safe.claimed old inOld gsn (covers prepared start gsn holds)
  · rw [counter, frontier]
    exact safe.resolved
  · rw [frontier]
    exact handed

theorem FrontierSafe.resolve (safe : FrontierSafe s) {batch : Batch} (member : batch ∈ s.batches)
    (nonempty : batch.prepared ≠ [])
    (batches : ∀ other ∈ next.batches, ∃ old ∈ s.batches, other.ref = old.ref ∧ other.prepared =
      old.prepared ∧ other.gsnStart = old.gsnStart ∧
      (other.phase ≠ .committed → old.phase ≠ .committed ∧ old.ref ≠ batch.ref))
    (counter : next.counter = s.counter)
    (frontier : next.frontier = StorageTree.resolve batch s.frontier)
    (handed : next.handed = s.handed) : FrontierSafe next := by
  have spec := resolve_spec s.frontier nonempty
  have covers : ∀ {other old : Batch}, other.prepared = old.prepared →
      other.gsnStart = old.gsnStart → ∀ gsn, Batch.Covers other gsn → Batch.Covers old gsn := by
    intro other old prepared start gsn holds
    rwa [Batch.Covers, ← prepared, ← start]
  constructor
  · intro other inBatches open_ gsn holds resolved
    obtain ⟨old, inOld, -, prepared, start, phase⟩ := batches other inBatches
    have inRange := covers prepared start gsn holds
    rw [frontier] at resolved
    rcases spec.2 gsn resolved with earlier | own
    · exact safe.unresolved old inOld (phase open_).1 gsn inRange earlier
    · exact safe.disjoint old inOld batch member (phase open_).2 gsn inRange own
  · intro left leftOpen right rightOpen different gsn inLeft inRight
    obtain ⟨oldLeft, leftMember, leftRef, leftPrepared, leftStart, -⟩ := batches left leftOpen
    obtain ⟨oldRight, rightMember, rightRef, rightPrepared, rightStart, -⟩ :=
      batches right rightOpen
    exact safe.disjoint oldLeft leftMember oldRight rightMember
      (leftRef ▸ rightRef ▸ different) gsn (covers leftPrepared leftStart gsn inLeft)
      (covers rightPrepared rightStart gsn inRight)
  · intro other inBatches gsn holds
    obtain ⟨old, inOld, -, prepared, start, -⟩ := batches other inBatches
    rw [counter]
    exact safe.claimed old inOld gsn (covers prepared start gsn holds)
  · intro gsn resolved
    rw [frontier] at resolved
    rw [counter]
    rcases spec.2 gsn resolved with earlier | own
    · exact safe.resolved gsn earlier
    · exact safe.claimed batch member gsn own
  · intro position listed
    rw [frontier]
    exact Nat.le_trans (safe.handed position (handed ▸ listed)) spec.1

theorem FrontierSafe.claim (safe : FrontierSafe s) {fresh : List PreparedAction}
    (batches : next.batches = s.batches ++ [s.claimedBatch fresh])
    (counter : next.counter = s.counter + fresh.length) (frontier : next.frontier = s.frontier)
    (handed : next.handed = s.handed) : FrontierSafe next := by
  have above : ∀ gsn, Batch.Covers (s.claimedBatch fresh) gsn →
      s.counter < gsn ∧ gsn ≤ s.counter + fresh.length := by
    intro gsn holds
    simp only [Batch.Covers, claimedBatch] at holds
    omega
  have cases : ∀ {batch : Batch}, batch ∈ next.batches →
      batch ∈ s.batches ∨ batch = s.claimedBatch fresh := by
    intro batch member
    rw [batches] at member
    exact (List.mem_append.mp member).imp_right List.mem_singleton.mp
  constructor
  · intro batch member open_ gsn holds resolved
    rw [frontier] at resolved
    rcases cases member with old | rfl
    · exact safe.unresolved batch old open_ gsn holds resolved
    · exact absurd (safe.resolved gsn resolved) (Nat.not_le.mpr (above gsn holds).1)
  · intro left leftOpen right rightOpen different gsn inLeft inRight
    rcases cases leftOpen with oldLeft | rfl <;> rcases cases rightOpen with oldRight | rfl
    · exact safe.disjoint left oldLeft right oldRight different gsn inLeft inRight
    · exact absurd (safe.claimed left oldLeft gsn inLeft)
        (Nat.not_le.mpr (above gsn inRight).1)
    · exact absurd (safe.claimed right oldRight gsn inRight)
        (Nat.not_le.mpr (above gsn inLeft).1)
    · exact different rfl
  · intro batch member gsn holds
    rw [counter]
    rcases cases member with old | rfl
    · exact Nat.le_trans (safe.claimed batch old gsn holds) (Nat.le_add_right _ _)
    · exact (above gsn holds).2
  · intro gsn resolved
    rw [frontier] at resolved
    rw [counter]
    exact Nat.le_trans (safe.resolved gsn resolved) (Nat.le_add_right _ _)
  · rw [handed, frontier]
    exact safe.handed

/-! ## Restarts -/

theorem FrontierSafe.restartWriter
    (resolved : ∀ gsn, s.frontier.Resolved gsn → gsn ≤ max s.counter (maxGsn s.actions))
    (handed : ∀ position ∈ s.handed, position ≤ s.restartWriter.frontier.watermark) :
    FrontierSafe s.restartWriter := by
  have counter := GsnCounter.le_reconcile s.counter (maxGsn s.actions)
  have bound : max s.counter (maxGsn s.actions) ≤
      GsnCounter.reconcile s.counter (maxGsn s.actions) := Nat.max_le.mpr counter
  constructor
  · exact fun batch member => absurd member List.not_mem_nil
  · exact fun batch member => absurd member List.not_mem_nil
  · exact fun batch member => absurd member List.not_mem_nil
  · intro gsn holds
    simp only [StorageTree.restartWriter] at holds ⊢
    split at holds
    · have earlier := (WatermarkTracker.advanceWatermark_spec _).2 gsn holds
      rcases WatermarkTracker.resolved_mark earlier with old | tail
      · exact Nat.le_trans (resolved gsn old) bound
      · exact tail.2
    · exact Nat.le_trans (resolved gsn holds) bound
  · exact handed

theorem watermark_le_restartWriter (s : StorageTree) :
    s.frontier.watermark ≤ s.restartWriter.frontier.watermark := by
  simp only [StorageTree.restartWriter]
  split
  · exact (WatermarkTracker.advanceWatermark_spec (s.frontier.markRangeCommitted _ _)).1
  · exact Nat.le_refl _

theorem resolved_of_seed {watermark gsn : Nat}
    (resolved : WatermarkTracker.Resolved { watermark, ranges := [] } gsn) : gsn ≤ watermark := by
  simpa [WatermarkTracker.Resolved] using resolved

theorem advance_single {watermark last : Nat} (beyond : watermark < last) :
    ((WatermarkTracker.markRangeCommitted (watermark + 1) last
      { watermark, ranges := [] }).advanceWatermark).watermark = last := by
  have kept : WatermarkTracker.pruneResolved [(watermark + 1, last)] watermark =
      [(watermark + 1, last)] := by
    simp [WatermarkTracker.pruneResolved, beyond]
  have covering : WatermarkTracker.rangeCovering [(watermark + 1, last)] (watermark + 1) =
      some (watermark + 1, last) := by
    have reaches : watermark + 1 ≤ last := beyond
    simp [WatermarkTracker.rangeCovering, reaches]
  have gone : WatermarkTracker.pruneResolved [(watermark + 1, last)] last = [] := by
    have positive : ¬ last ≤ 0 := by omega
    simp [WatermarkTracker.pruneResolved, positive]
  simp only [WatermarkTracker.advanceWatermark, WatermarkTracker.markRangeCommitted, setEntry,
    List.length_cons, List.length_nil, WatermarkTracker.doAdvance, kept, covering, gone]
  simp [WatermarkTracker.rangeCovering]

theorem counter_le_restartWatermarkTracker (s : StorageTree) :
    s.counter ≤ s.restartWatermarkTracker.frontier.watermark := by
  have counter := GsnCounter.le_reconcile s.counter (maxGsn s.actions)
  simp only [StorageTree.restartWatermarkTracker, StorageTree.restartWriter]
  split
  · next beyond =>
      rw [advance_single beyond]
      exact counter.1
  · next reached =>
      exact Nat.le_trans counter.1 (Nat.le_of_not_lt reached)

theorem FrontierSafe.restartWatermarkTracker (handed : ∀ position ∈ s.handed, position ≤ s.counter)
    :
    FrontierSafe s.restartWatermarkTracker := by
  apply FrontierSafe.restartWriter
  · exact fun gsn resolved => Nat.le_trans (resolved_of_seed resolved) (Nat.le_max_right _ _)
  · exact fun position listed =>
      Nat.le_trans (handed position listed) (counter_le_restartWatermarkTracker s)

/-! ## Runs -/

theorem FrontierSafe.step (safe : FrontierSafe s) (tidy : Tidy s) (condition : s.FrontierKept event)
    (stepped : StepCase s event next) :
    FrontierSafe next := by
  have keep : ∀ {after : StorageTree}, after.batches = s.batches →
      after.counter = s.counter → after.frontier = s.frontier → after.handed = s.handed →
      FrontierSafe after := by
    intro after batches counter frontier handed
    exact safe.relabel
      (fun batch member => ⟨batch, batches ▸ member, rfl, rfl, rfl, fun phase => phase⟩)
      counter frontier (handed ▸ safe.handed)
  have handedClaimed : ∀ position ∈ s.handed, position ≤ s.counter := fun position listed =>
    Nat.le_trans (safe.handed position listed) (safe.resolved _ (.inl (Nat.le_refl _)))
  have abandoned : ∀ batch ∈ s.batches, FrontierSafe (s.abandonBatch batch) := by
    intro batch member
    refine safe.resolve member (tidy.nonempty batch member) ?_ rfl rfl rfl
    intro other inBatches
    have spec := CommitPipeline.mem_prune.mp inBatches
    exact ⟨other, spec.1, rfl, rfl, rfl, fun phase => ⟨phase, spec.2⟩⟩
  cases stepped with
  | plan burst idle => exact keep rfl rfl rfl rfl
  | claimNothing tagged planning nothing => exact keep rfl rfl rfl rfl
  | claim tagged planning something => exact safe.claim rfl rfl rfl rfl
  | dispatch batch idle member prepared =>
      refine safe.relabel ?_ rfl rfl safe.handed
      intro other inBatches
      obtain ⟨old, inOld, ref, actions, start, -, changed, kept⟩ := mem_setPhase_core inBatches
      refine ⟨old, inOld, ref, actions, start, fun phase => ?_⟩
      by_cases same : old.ref = batch.ref
      · rw [tidy.eq_of_ref inOld member same, prepared]
        decide
      · exact kept same ▸ phase
  | land job member => exact keep rfl rfl rfl rfl
  | reject batch idle member outstanding committing =>
      have after := abandoned batch member
      exact after.relabel
        (fun other inBatches => ⟨other, inBatches, rfl, rfl, rfl, fun phase => phase⟩)
        rfl rfl after.handed
  | ack batch idle member acked committing =>
      refine safe.resolve member (tidy.nonempty batch member) ?_ rfl rfl rfl
      intro other inBatches
      obtain ⟨old, inOld, ref, actions, start, -, changed, kept⟩ := mem_setPhase_core inBatches
      refine ⟨old, inOld, ref, actions, start, fun phase => ?_⟩
      by_cases same : old.ref = batch.ref
      · exact absurd (changed same) phase
      · exact ⟨kept same ▸ phase, same⟩
  | apply batch rest idle oldest committed =>
      have within : rest ⊆ s.batches := oldest ▸ List.subset_cons_self batch rest
      exact safe.relabel
        (fun other inBatches => ⟨other, within inBatches, rfl, rfl, rfl, fun phase => phase⟩)
        rfl rfl safe.handed
  | abandon batch idle member => exact abandoned batch member
  | rebuilt rebuilding => exact keep rfl rfl rfl rfl
  | rebuildGone ref refs busy gone => exact keep rfl rfl rfl rfl
  | rebuildClear batch refs rebuilding member => exact keep rfl rfl rfl rfl
  | rebuildMark batch refs remarking member =>
      refine safe.relabel ?_ rfl rfl safe.handed
      intro other inBatches
      obtain ⟨old, inOld, equal⟩ := List.mem_map.mp inBatches
      refine ⟨old, inOld, ?_⟩
      subst equal
      split <;> simp
  | startRead entity => exact keep rfl rfl rfl rfl
  | advanceRead index reader phase rows marks found stepped => exact keep rfl rfl rfl rfl
  | handPosition =>
      refine safe.relabel
        (fun batch member => ⟨batch, member, rfl, rfl, rfl, fun phase => phase⟩) rfl rfl ?_
      intro position listed
      rcases List.mem_cons.mp listed with equal | earlier
      · exact Nat.le_of_eq equal
      · exact safe.handed position earlier
  | restartWriter =>
      apply FrontierSafe.restartWriter
      · exact fun gsn resolved => Nat.le_trans (safe.resolved gsn resolved) (Nat.le_max_left _ _)
      · exact fun position listed =>
          Nat.le_trans (safe.handed position listed) (watermark_le_restartWriter s)
  | restartWatermarkTracker => exact FrontierSafe.restartWatermarkTracker handedClaimed
  | restartSystemCache => exact FrontierSafe.restartWatermarkTracker (condition.2 rfl)
  | restartNode => exact FrontierSafe.restartWatermarkTracker (condition.2 rfl)

theorem FrontierSafe.above_handed (safe : FrontierSafe s) (tidy : Tidy s)
    (condition : s.FrontierKept event) (stepped : StepCase s event next) {gsn : Nat}
    (durable : s.BecameDurable next gsn) {position : Nat} (listed : position ∈ s.handed)
    : position < gsn := by
  have handed := safe.handed position listed
  cases stepped with
  | land job member =>
      have inRange : job.gsnStart ≤ gsn ∧ gsn < job.gsnStart + job.prepared.length := by
        by_contra outside
        exact durable (lookup_write_of_ne (by omega))
      cases found : CommitPipeline.get? s.batches job.ref with
      | some batch =>
          obtain ⟨inBatches, same⟩ := CommitPipeline.get?_spec found
          obtain ⟨committing, prepared, start⟩ := tidy.jobBatch job member batch inBatches same
          have unresolved := safe.unresolved batch inBatches (by simp [committing]) gsn
            (by rw [Batch.Covers, prepared, start]; exact inRange)
          exact Nat.lt_of_le_of_lt handed
            (Nat.lt_of_not_le fun passed => unresolved (.inl passed))
      | none =>
          have late := condition.1 job (List.mem_filter.mpr ⟨member, by simp⟩) found
          omega
  | _ => exact absurd rfl durable

theorem handed_subset (stepped : StepCase s event next) : s.handed ⊆ next.handed := by
  cases stepped with
  | handPosition => exact List.subset_cons_self _ _
  | _ => exact List.Subset.refl _

theorem above_handed_of_run {maxInFlight : Nat} {events : List Event}
    {middle final : StorageTree} (tidy : Tidy middle) (safe : FrontierSafe middle)
    (meets : (machine maxInFlight).Meets FrontierKept middle events)
    (reached : (machine maxInFlight).run middle events = some final) {gsn : Nat}
    (durable : middle.BecameDurable final gsn) {position : Nat}
    (listed : position ∈ middle.handed) : position < gsn := by
  induction events generalizing middle with
  | nil =>
      cases reached
      exact absurd rfl durable
  | cons event rest induction =>
      obtain ⟨next, stepped, remaining⟩ := Machine.run_cons.mp reached
      have inverted := step_cases stepped
      by_cases now : middle.BecameDurable next gsn
      · exact safe.above_handed tidy meets.1 inverted now listed
      · have unchanged : next.actions.lookup gsn = middle.actions.lookup gsn := not_not.mp now
        exact induction (tidy.step inverted) (safe.step tidy meets.1 inverted)
          (meets.2 next stepped) remaining (fun same => durable (same.trans unchanged))
          (handed_subset inverted listed)

/-- In a run that keeps the frontier, a position handed out lies below every Action
that becomes durable afterwards. -/
theorem position_below_later_commits {maxInFlight : Nat} {before after : List Event}
    {middle final : StorageTree}
    (meets : (machine maxInFlight).Meets FrontierKept .initial (before ++ after))
    (handedAt : (machine maxInFlight).run .initial before = some middle)
    (reached : (machine maxInFlight).run middle after = some final) {position gsn : Nat}
    (listed : position ∈ middle.handed) (durable : middle.BecameDurable final gsn) :
    position < gsn := by
  obtain ⟨meetsBefore, meetsAfter⟩ := (Machine.meets_append handedAt).mp meets
  have preserved : ∀ state event next, Tidy state ∧ FrontierSafe state →
      state.FrontierKept event → (machine maxInFlight).step state event = some next →
      Tidy next ∧ FrontierSafe next := by
    rintro state event next ⟨tidy, safe⟩ condition stepped
    have inverted := step_cases stepped
    exact ⟨tidy.step inverted, safe.step tidy condition inverted⟩
  obtain ⟨tidy, safe⟩ := Machine.run_preserves preserved ⟨tidy_initial, frontierSafe_initial⟩
    meetsBefore handedAt
  exact above_handed_of_run tidy safe meetsAfter reached durable listed

/-! An abandoned range moves the frontier past the log; after a restart the counter
starts at the log again and reuses the GSN. -/

private def noteCommit (id : String) : PreparedAction where
  id := id
  affectedEntities := ["note_a"]
  movesGroups := false

def abandonedTail : List Event :=
  [.plan [noteCommit "act_a"], .claim, .dispatch, .reject 0, .rebuild, .handPosition]

def reusedGsn : List Event :=
  [.restartNode, .plan [noteCommit "act_b"], .claim, .dispatch, .land 1]

theorem reused_gsn_not_above_position :
    ¬ ∀ (maxInFlight : Nat) (before after : List Event) (middle final : StorageTree),
      (machine maxInFlight).run .initial before = some middle →
      (machine maxInFlight).run middle after = some final →
      ∀ position ∈ middle.handed, ∀ gsn, middle.BecameDurable final gsn → position < gsn := by
  intro below
  have handed : ((machine 1).run .initial abandonedTail).map (fun s =>
      (s.handed, s.actions.lookup 1)) = some ([1], none) := by decide
  have committed : (((machine 1).run .initial abandonedTail).bind fun s =>
      (machine 1).run s reusedGsn).map (fun s => s.actions.lookup 1) =
      some (some (noteCommit "act_b")) := by decide
  obtain ⟨middle, first, positions⟩ := Option.map_eq_some_iff.mp handed
  rw [first, Option.bind_some] at committed
  obtain ⟨final, second, written⟩ := Option.map_eq_some_iff.mp committed
  obtain ⟨listed, unwritten⟩ := Prod.mk.inj positions
  have durable : middle.BecameDurable final 1 := by simp [BecameDurable, written, unwritten]
  exact absurd (below 1 abandonedTail reusedGsn middle final first second 1
    (by simp [listed]) 1 durable) (by decide)

/-- After an abandoned range, a Writer restart keeps the counter, so the next commit
lies above the position. -/
def nextCommit : List Event :=
  [.restartWriter, .plan [noteCommit "act_b"], .claim, .dispatch, .land 1]

theorem position_below_nextCommit :
    ∃ middle final, (machine 1).run .initial abandonedTail = some middle ∧
      (machine 1).run middle nextCommit = some final ∧ 1 ∈ middle.handed ∧
      middle.BecameDurable final 2 ∧ 1 < 2 := by
  have handed : ((machine 1).run .initial abandonedTail).map (fun s =>
      (s.handed, s.actions.lookup 2)) = some ([1], none) := by decide
  have committed : (((machine 1).run .initial abandonedTail).bind fun s =>
      (machine 1).run s nextCommit).map (fun s => s.actions.lookup 2) =
      some (some (noteCommit "act_b")) := by decide
  obtain ⟨middle, first, positions⟩ := Option.map_eq_some_iff.mp handed
  rw [first, Option.bind_some] at committed
  obtain ⟨final, second, written⟩ := Option.map_eq_some_iff.mp committed
  obtain ⟨listed, unwritten⟩ := Prod.mk.inj positions
  have member : 1 ∈ middle.handed := by simp [listed]
  have durable : middle.BecameDurable final 2 := by simp [BecameDurable, written, unwritten]
  have meets : (machine 1).Meets FrontierKept .initial (abandonedTail ++ nextCommit) := by
    decide
  exact ⟨middle, final, first, second, member, durable,
    position_below_later_commits meets first second member durable⟩

end StorageTree

end Ebb.Server
