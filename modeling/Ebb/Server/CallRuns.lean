import Ebb.Server.CallResumption

namespace Ebb.Server.CallQueue

/-! The Writer over whole runs: what every message keeps, and what follows once nothing is
left that could resume the queue. -/

variable {config : Config} {answers : Answers} {s : CallQueue}

/-- The conditions of the commits that a message starts, with as many as `startNext` allows. -/
def startMeets (config : Config) (answers : Answers) (s : CallQueue) : Bool :=
  startNextMeets config answers (s.queued + 1) s

theorem keeps_startNext (config : Config) (answers : Answers) :
    Keeps (startMeets config answers) (startNext config answers) where
  sound := (keeps_startNextCommit config answers _).sound
  pending := (keeps_startNextCommit config answers _).pending
  burst := (keeps_startNextCommit config answers _).burst
  marker := (keeps_startNextCommit config answers _).marker

/-- What holds between two messages. -/
structure Awake (s : CallQueue) : Prop where
  sound : Sound s
  pending : PendingAwake s
  burst : BurstAwake s
  marker : MarkerAwake s

theorem awake_initial (durable : List String) : Awake (initial durable) where
  sound := sound_initial durable
  pending _ waiting := absurd rfl waiting
  burst bursting := absurd rfl bursting
  marker _ waiting := by
    rcases waiting with jobs | payloads
    · exact absurd rfl jobs
    · exact absurd rfl payloads

/-! ## Arrival -/

theorem Sound.noJob (sound : Sound s) : s.preparing.get? s.nextCallSeq = none := by
  cases found : s.preparing.get? s.nextCallSeq with
  | none => rfl
  | some call =>
      have listed := (sound.job found).2
      rw [List.getElem?_eq_none (Nat.le_of_eq sound.accepted)] at listed
      cases listed

theorem Sound.noPayload (sound : Sound s) : s.prepared.get? s.nextCallSeq = none := by
  cases found : s.prepared.get? s.nextCallSeq with
  | none => rfl
  | some payload => exact absurd (sound.payload found).2.1 (Nat.lt_irrefl _)

theorem arrives (arrived : Nat) {before after caller : Nat}
    (placed : before = if caller < arrived then 1 else 0)
    (grows : after = before + if caller = arrived then 1 else 0) :
    after = if caller < arrived + 1 then 1 else 0 := by
  rw [grows, placed]
  split
  · split
    · omega
    · rw [if_pos (by omega)]
  · split
    · rw [if_pos (by omega)]
    · rw [if_neg (by omega)]

theorem count_arrived (arrived caller : Nat) :
    [arrived].count caller = if caller = arrived then 1 else 0 := by
  rw [List.count_singleton]
  by_cases same : caller = arrived
  · simp [same]
  · simp [same, Ne.symm same]

theorem Sound.turnAway (sound : Sound s) :
    Sound ({ s with arrived := s.arrived + 1 }.reply [s.arrived]) := by
  refine { sound with
    arrived := fun caller listed => Nat.lt_succ_of_lt (sound.arrived caller listed)
    placed := fun caller => ?_ }
  refine arrives s.arrived (sound.placed caller) ?_
  change tally s.preparing s.prepared s.pending s.batches (s.replied ++ [s.arrived]) caller =
    tally s.preparing s.prepared s.pending s.batches s.replied caller + _
  rw [tally, tally, List.count_append, count_arrived]
  omega

theorem Sound.takeIn (sound : Sound s) {preparing : OrderedMap Nat Call}
    {prepared : OrderedMap Nat Payload} {replied : List Nat}
    (jobs : ∀ {seq call}, preparing.get? seq = some call →
      s.preparing.get? seq = some call ∨ seq = s.nextCallSeq ∧ call.caller = s.arrived)
    (payloads : ∀ {seq payload}, prepared.get? seq = some payload →
      s.prepared.get? seq = some payload ∧ preparing.get? seq = s.preparing.get? seq ∨
        seq = s.nextCallSeq ∧ preparing.get? seq = none ∧
          ∀ caller ∈ payload.callers, caller = s.arrived)
    (covered : ∀ {seq}, (preparing.get? seq).isSome ∨ (prepared.get? seq).isSome ↔
      seq = s.nextCallSeq ∨ (s.preparing.get? seq).isSome ∨ (s.prepared.get? seq).isSome)
    (grows : ∀ caller, tally preparing prepared s.pending s.batches replied caller =
      s.places caller + if caller = s.arrived then 1 else 0) :
    Sound { { s with arrived := s.arrived + 1 }.accept s.arrived with
      preparing, prepared, replied } := by
  have length : s.accepted.length = s.nextCallSeq := sound.accepted
  have extends' {seq caller : Nat} (listed : s.accepted[seq]? = some caller) :
      (s.accepted ++ [s.arrived])[seq]? = some caller := by
    rw [List.getElem?_append_left (List.getElem?_eq_some_iff.mp listed).1]
    exact listed
  have last : (s.accepted ++ [s.arrived])[s.nextCallSeq]? = some s.arrived := by
    rw [← length, List.getElem?_concat_length]
  constructor
  case flushMarked => exact sound.flushMarked
  case prepareMarked => exact sound.prepareMarked
  case burstKnown => exact fun bursting => Nat.lt_succ_of_lt (sound.burstKnown bursting)
  case accepted =>
    change (s.accepted ++ [s.arrived]).length = s.nextCallSeq + 1
    rw [List.length_append, length]
    rfl
  case arrivals =>
    change (s.accepted ++ [s.arrived]).Pairwise (· < ·)
    rw [List.pairwise_append]
    refine ⟨sound.arrivals, List.pairwise_singleton _ _, ?_⟩
    intro caller listed new isNew
    rw [List.mem_singleton.mp isNew]
    exact sound.arrived caller listed
  case arrived =>
    intro caller listed
    change caller < s.arrived + 1
    rcases List.mem_append.mp listed with old | new
    · exact Nat.lt_succ_of_lt (sound.arrived caller old)
    · rw [List.mem_singleton.mp new]
      exact Nat.lt_succ_self _
  case enqueued => exact Nat.le_succ_of_le sound.enqueued
  case job =>
    intro seq call job
    rcases jobs job with old | ⟨rfl, caller⟩
    · exact ⟨(sound.job old).1, extends' (sound.job old).2⟩
    · exact ⟨sound.enqueued, by rw [caller]; exact last⟩
  case payload =>
    intro seq payload filed
    rcases payloads filed with ⟨old, same⟩ | ⟨rfl, noJob, callers⟩
    · rcases sound.payload old with ⟨later, known, noJob, accepted⟩
      refine ⟨later, Nat.lt_succ_of_lt known, same.trans noJob, ?_⟩
      exact fun caller listed => extends' (accepted caller listed)
    · refine ⟨sound.enqueued, Nat.lt_succ_self _, noJob, fun caller listed => ?_⟩
      rw [callers caller listed]
      exact last
  case covered =>
    intro seq later earlier
    rw [covered]
    by_cases new : seq = s.nextCallSeq
    · exact .inl new
    · exact .inr (sound.covered later (by change seq < s.nextCallSeq + 1 at earlier; omega))
  case inOrder =>
    refine sound.inOrder.trans ?_
    change (s.accepted.take s.nextEnqueueSeq).Sublist
      ((s.accepted ++ [s.arrived]).take s.nextEnqueueSeq)
    rw [List.take_append_of_le_length (by rw [length]; exact sound.enqueued)]
  case refs => exact sound.refs
  case refsKnown => exact sound.refsKnown
  case placed => exact fun caller => arrives s.arrived (sound.placed caller) (grows caller)

theorem Sound.takeJob (sound : Sound s) {call : Call} (caller : call.caller = s.arrived) :
    Sound { { s with arrived := s.arrived + 1 }.accept s.arrived with
      preparing := s.preparing.set s.nextCallSeq call } := by
  apply @Sound.takeIn s sound (s.preparing.set s.nextCallSeq call) s.prepared s.replied
  case jobs =>
    intro seq other job
    rw [OrderedMap.get?_set] at job
    split at job
    · next same =>
        cases job
        exact .inr ⟨same, caller⟩
    · exact .inl job
  case payloads =>
    intro seq payload filed
    have different : seq ≠ s.nextCallSeq := by
      rintro rfl
      rw [sound.noPayload] at filed
      cases filed
    exact .inl ⟨filed, OrderedMap.get?_set_of_ne _ different _⟩
  case covered =>
    intro seq
    rw [OrderedMap.get?_set]
    by_cases same : seq = s.nextCallSeq
    · simp [same]
    · simp [same]
  case grows =>
    intro other
    rw [places, tally, tally, OrderedMap.entries_set_of_absent sound.noJob, List.map_append,
      List.count_append, List.map_singleton, caller, count_arrived]
    omega

theorem Sound.takeFiled (sound : Sound s) {call : Call} (caller : call.caller = s.arrived)
    (built : Bool) :
    Sound (({ s with arrived := s.arrived + 1 }.accept s.arrived).filePayload s.nextCallSeq call
      built) := by
  have filed (payload : Payload) {seq : Nat} {other : Payload}
      (found : (s.prepared.set s.nextCallSeq payload).get? seq = some other) :
      s.prepared.get? seq = some other ∨ seq = s.nextCallSeq ∧ other = payload := by
    rw [OrderedMap.get?_set] at found
    split at found
    · next same =>
        cases found
        exact .inr ⟨same, rfl⟩
    · exact .inl found
  have covered (payload : Payload) {seq : Nat} :
      (s.preparing.get? seq).isSome ∨ ((s.prepared.set s.nextCallSeq payload).get? seq).isSome ↔
        seq = s.nextCallSeq ∨ (s.preparing.get? seq).isSome ∨ (s.prepared.get? seq).isSome := by
    rw [OrderedMap.get?_set]
    by_cases same : seq = s.nextCallSeq
    · simp [same]
    · simp [same]
  cases built with
  | true =>
      apply @Sound.takeIn s sound s.preparing (s.prepared.set s.nextCallSeq (.ready call)) s.replied
      case jobs => exact .inl
      case payloads =>
        intro seq payload found
        rcases filed _ found with old | ⟨rfl, rfl⟩
        · exact .inl ⟨old, rfl⟩
        · refine .inr ⟨rfl, sound.noJob, fun other listed => ?_⟩
          rw [List.mem_singleton.mp listed, caller]
      case covered => exact covered _
      case grows =>
        intro other
        rw [places, tally, tally, OrderedMap.entries_set_of_absent sound.noPayload,
          List.flatMap_append, List.count_append, List.flatMap_singleton]
        dsimp only
        rw [Payload.callers, caller, count_arrived]
        omega
  | false =>
      apply @Sound.takeIn s sound s.preparing (s.prepared.set s.nextCallSeq .skipped)
        (s.replied ++ [call.caller])
      case jobs => exact .inl
      case payloads =>
        intro seq payload found
        rcases filed _ found with old | ⟨rfl, rfl⟩
        · exact .inl ⟨old, rfl⟩
        · exact .inr ⟨rfl, sound.noJob, by rintro _ ⟨⟩⟩
      case covered => exact covered _
      case grows =>
        intro other
        rw [places, tally, tally, OrderedMap.entries_set_of_absent sound.noPayload,
          List.flatMap_append, List.count_append, List.flatMap_singleton, List.count_append,
          caller, count_arrived]
        dsimp only
        rw [Payload.callers, List.count_nil]
        omega

theorem Awake.call (awake : Awake s) (actions : List EnqueuedAction) (built : Bool) :
    Awake (s.handleCall config actions built) := by
  rw [handleCall]
  dsimp only
  split
  · exact ⟨awake.sound.turnAway, awake.pending, awake.burst, awake.marker⟩
  · split
    · next inline =>
      have resting : s.burstMaxSeq = none := by
        simp only [inlinePrepare, Bool.and_eq_true] at inline
        exact Option.isNone_iff_eq_none.mp inline.1.1.2
      constructor
      case sound => exact (awake.sound.takeFiled rfl built).maybeSchedule
      case pending =>
        apply pending_maybeSchedule
        cases built
        · exact awake.pending
        · exact awake.pending
      case burst =>
        apply burst_maybeSchedule
        cases built
        · exact fun bursting => absurd resting bursting
        · exact fun bursting => absurd resting bursting
      case marker => exact marker_maybeSchedule _
    · constructor
      case sound => exact (awake.sound.takeJob rfl).maybeSchedule
      case pending => exact pending_maybeSchedule awake.pending
      case burst =>
        apply burst_maybeSchedule
        intro _
        refine .inl ?_
        change (s.preparing.set s.nextCallSeq _).entries ≠ []
        rw [OrderedMap.entries_set_of_absent awake.sound.noJob]
        exact List.append_ne_nil_of_right_ne_nil _ (List.cons_ne_nil _ _)
      case marker => exact marker_maybeSchedule _

/-! ## Prepare results -/

theorem ne_nil_of_get? {β : Type} {map : OrderedMap Nat β} {seq : Nat} {value : β}
    (found : map.get? seq = some value) : map.entries ≠ [] := by
  intro none
  rw [OrderedMap.get?, none] at found
  cases found

theorem Sound.file (sound : Sound s) {seq : Nat} {call : Call} (built : Bool)
    (job : s.preparing.get? seq = some call) :
    Sound ({ s with preparing := s.preparing.erase seq }.filePayload seq call built) := by
  rcases sound.job job with ⟨later, accepted⟩
  have known : seq < s.nextCallSeq := by
    rw [← sound.accepted]
    exact (List.getElem?_eq_some_iff.mp accepted).1
  have absent : s.prepared.get? seq = none := by
    cases found : s.prepared.get? seq with
    | none => rfl
    | some payload =>
        have noJob := (sound.payload found).2.2.1
        rw [job] at noJob
        cases noJob
  have general (payload : Payload) (replied : List Nat)
      (callers : ∀ caller ∈ payload.callers, caller = call.caller)
      (counts : ∀ caller, payload.callers.count caller + replied.count caller =
        [call.caller].count caller + s.replied.count caller) :
      Sound { s with
        preparing := s.preparing.erase seq
        prepared := s.prepared.set seq payload
        replied } := by
    refine { sound with job := ?_, payload := ?_, covered := ?_, placed := ?_ }
    · intro other otherCall found
      rw [OrderedMap.get?_erase] at found
      split at found
      · cases found
      · exact sound.job found
    · intro other otherPayload found
      rw [OrderedMap.get?_set] at found
      change _ ∧ _ ∧ (s.preparing.erase seq).get? other = none ∧ _
      rw [OrderedMap.get?_erase]
      by_cases same : other = seq
      · subst same
        rw [if_pos rfl] at found ⊢
        cases found
        refine ⟨later, known, rfl, fun caller listed => ?_⟩
        rw [callers caller listed]
        exact accepted
      · rw [if_neg same] at found ⊢
        exact sound.payload found
    · intro other isLater earlier
      change ((s.preparing.erase seq).get? other).isSome ∨ ((s.prepared.set seq payload).get? other).isSome
      rw [OrderedMap.get?_erase, OrderedMap.get?_set]
      by_cases same : other = seq
      · rw [if_pos same, if_pos same]
        exact .inr rfl
      · rw [if_neg same, if_neg same]
        exact sound.covered isLater earlier
    · intro caller
      refine Eq.trans ?_ (sound.placed caller)
      have count := counts caller
      rcases OrderedMap.exists_split job with ⟨before, after, split, erased, _⟩
      change tally (s.preparing.erase seq) (s.prepared.set seq payload) s.pending s.batches replied
        caller = s.places caller
      rw [places, tally, tally, split, erased, OrderedMap.entries_set_of_absent absent,
        List.flatMap_append, List.map_append, List.map_append, List.map_cons, List.count_append,
        List.count_append, List.count_append, List.flatMap_singleton, List.count_cons]
      rw [List.count_singleton] at count
      dsimp only
      omega
  cases built with
  | true =>
      apply general (.ready call) s.replied
      · intro caller listed
        exact List.mem_singleton.mp listed
      · exact fun _ => rfl
  | false =>
      apply general .skipped (s.replied ++ [call.caller])
      · rintro _ ⟨⟩
      · intro caller
        rw [Payload.callers, List.count_append, List.count_nil]
        omega

def filed (s : CallQueue) (seq : Nat) (call : Call) (built : Bool) : CallQueue :=
  ({ s with preparing := s.preparing.erase seq }).filePayload seq call built

/-- Where the message advances the burst, it leaves no call behind. -/
def prepareResultMeets (config : Config) (s : CallQueue) (seq : Nat) (built : Bool)
    (answers : Answers) : Bool :=
  match s.preparing.get? seq with
  | none => true
  | some call =>
      (s.filed seq call built).advanceMeets config (startMeets config answers) answers

theorem Awake.prepareResult (awake : Awake s) {seq : Nat} {built : Bool} {answers : Answers}
    (meets : prepareResultMeets config s seq built answers = true) :
    Awake (s.handlePrepareResult config seq built answers) := by
  rw [handlePrepareResult]
  split
  · exact awake
  · next call job =>
      rw [prepareResultMeets, job] at meets
      have keeps := keeps_startNext config answers
      have filed := awake.sound.file built job
      have waiting : s.preparing.entries ≠ [] := ne_nil_of_get? job
      constructor
      case sound => exact keeps.advance_sound filed meets
      case pending =>
        apply keeps.advance_pending filed meets
        cases built
        · exact awake.pending
        · exact awake.pending
      case burst => exact keeps.advance_burst filed meets
      case marker =>
        apply keeps.advance_marker filed
        intro none _
        cases built
        · exact awake.marker none (.inl waiting)
        · exact awake.marker none (.inl waiting)

/-! ## Markers -/

theorem Sound.empty_of_noCall (sound : Sound s) (noCall : s.nextCallSeq = 0) :
    s.preparing.entries = [] ∧ s.prepared.entries = [] := by
  constructor
  · cases jobs : s.preparing.entries with
    | nil => rfl
    | cons entry rest =>
        have job : s.preparing.get? entry.1 = some entry.2 := by
          rw [OrderedMap.get?_eq_some_iff, jobs]
          exact List.mem_cons_self
        have listed := (List.getElem?_eq_some_iff.mp (sound.job job).2).1
        rw [sound.accepted, noCall] at listed
        exact absurd listed (Nat.not_lt_zero _)
  · cases payloads : s.prepared.entries with
    | nil => rfl
    | cons entry rest =>
        have filed : s.prepared.get? entry.1 = some entry.2 := by
          rw [OrderedMap.get?_eq_some_iff, payloads]
          exact List.mem_cons_self
        have known := (sound.payload filed).2.1
        rw [noCall] at known
        exact absurd known (Nat.not_lt_zero _)

def prepareFlushMeets (config : Config) (s : CallQueue) (answers : Answers) : Bool :=
  s.burstMaxSeq ≠ none || s.nextCallSeq = 0 ||
    { s with
      prepareFlushScheduled := false
      prepareMarkers := s.prepareMarkers - 1
      burstMaxSeq := some (s.nextCallSeq - 1) }.advanceMeets config (startMeets config answers)
      answers

theorem Awake.prepareFlush (awake : Awake s) {answers : Answers}
    (meets : prepareFlushMeets config s answers = true) :
    Awake (s.handlePrepareFlush config answers) := by
  have cleared : Sound { s with
      prepareFlushScheduled := false
      prepareMarkers := s.prepareMarkers - 1 } := { awake.sound with prepareMarked := nofun }
  rw [handlePrepareFlush]
  dsimp only
  split
  · next bursting =>
      exact ⟨cleared, awake.pending, awake.burst, fun none => absurd none bursting⟩
  · next resting =>
    split
    · next noCall =>
        refine ⟨cleared, awake.pending, awake.burst, fun _ waiting => ?_⟩
        rcases awake.sound.empty_of_noCall noCall with ⟨noJob, noPayload⟩
        rcases waiting with jobs | payloads
        · exact absurd noJob jobs
        · exact absurd noPayload payloads
    · next known =>
        have keeps := keeps_startNext config answers
        have started : Sound { s with
            prepareFlushScheduled := false
            prepareMarkers := s.prepareMarkers - 1
            burstMaxSeq := some (s.nextCallSeq - 1) } := by
          refine { cleared with burstKnown := fun {last} bursting => ?_ }
          cases bursting
          change s.nextCallSeq - 1 < s.nextCallSeq
          omega
        simp only [prepareFlushMeets, resting, known, decide_false, Bool.false_or] at meets
        exact ⟨keeps.advance_sound started meets,
          keeps.advance_pending started meets fun _ _ => .inr nofun,
          keeps.advance_burst started meets, keeps.advance_marker started nofun⟩

def handleFlushMeets (config : Config) (s : CallQueue) (answers : Answers) : Bool :=
  let cleared := { s with flushScheduled := false, flushMarkers := s.flushMarkers - 1 }
  cleared.atCapacity config || cleared.flushMeets (startMeets config answers) answers

theorem Awake.flush (awake : Awake s) {answers : Answers}
    (meets : handleFlushMeets config s answers = true) :
    Awake (s.handleFlush config answers) := by
  have cleared : Sound { s with
      flushScheduled := false
      flushMarkers := s.flushMarkers - 1 } := { awake.sound with flushMarked := nofun }
  rw [handleFlush]
  split
  · next full =>
      have opened := @ne_nil_of_atCapacity config _ full
      exact ⟨cleared, fun none => absurd none opened, awake.burst, awake.marker⟩
  · next room =>
      have keeps := keeps_startNext config answers
      simp only [handleFlushMeets, room, Bool.false_or] at meets
      exact ⟨keeps.flush_sound cleared meets, keeps.flush_pending cleared meets,
        keeps.flush_burst cleared meets fun _ bursting =>
          (awake.burst bursting).imp_right (Or.imp_right And.right),
        keeps.flush_marker cleared awake.marker⟩

def committerResultMeets (config : Config) (s : CallQueue) (ref : Nat) (landed : Bool)
    (answers : Answers) : Bool :=
  match s.batches.find? fun batch => batch.ref = ref with
  | none => true
  | some batch =>
      batch.phase ≠ .committing ||
        s.resultMeets config (startMeets config answers) (startNext config answers) answers landed
          batch

theorem Awake.committerResult (awake : Awake s) {ref : Nat} {landed : Bool} {answers : Answers}
    (meets : committerResultMeets config s ref landed answers = true) :
    Awake (s.handleCommitterResult config ref landed answers) := by
  rw [handleCommitterResult]
  split
  · exact awake
  · next batch found =>
      split
      · next committing =>
          rw [committerResultMeets, found] at meets
          simp only [committing, decide_false, Bool.false_or, ne_eq, not_true] at meets
          have keeps := keeps_startNext config answers
          have holds : s.Holds batch :=
            ⟨batch, List.mem_of_find?_eq_some found, rfl, rfl, by rw [committing]; exact nofun⟩
          exact ⟨keeps.result_sound awake.sound holds meets,
            keeps.result_pending awake.sound holds meets,
            keeps.result_burst awake.sound holds meets,
            result_marker landed batch awake.marker⟩
      · exact awake

/-- On the state a message meets: where it advances the burst, a full part of the burst with
nothing fresh in it leaves no prepared call behind it while no job runs and no batch is open;
and where it abandons a batch, those that chained it can be prepared again. -/
def eventMeets (config : Config) (s : CallQueue) : Event → Bool
  | .call _ _ => true
  | .prepareResult seq built answers => prepareResultMeets config s seq built answers
  | .prepareFlush answers => prepareFlushMeets config s answers
  | .flush answers => handleFlushMeets config s answers
  | .committerResult ref landed answers => committerResultMeets config s ref landed answers
  | .lateWrite _ => true

theorem Awake.step {next : CallQueue} {event : Event} (awake : Awake s)
    (meets : eventMeets config s event = true) (stepped : s.step config event = some next) :
    Awake next := by
  cases event with
  | call actions built =>
      cases stepped
      exact awake.call actions built
  | prepareResult seq built answers =>
      cases stepped
      exact awake.prepareResult meets
  | prepareFlush answers =>
      rw [CallQueue.step] at stepped
      split at stepped
      · cases stepped
      · cases stepped
        exact awake.prepareFlush meets
  | flush answers =>
      rw [CallQueue.step] at stepped
      split at stepped
      · cases stepped
      · cases stepped
        exact awake.flush meets
  | committerResult ref landed answers =>
      cases stepped
      exact awake.committerResult meets
  | lateWrite actionIds =>
      cases stepped
      exact ⟨{ awake.sound with }, awake.pending, awake.burst, awake.marker⟩

/-! ## Runs -/

def waiting (s : CallQueue) : List Nat :=
  (s.preparing.entries.map fun entry => entry.2.caller) ++
    (s.prepared.entries.flatMap fun entry => entry.2.callers) ++
    callersOf s.pending ++ unanswered s.batches

/-- Nothing that could resume the queue is left. -/
def Quiet (s : CallQueue) : Prop :=
  s.preparing.entries = [] ∧ s.batches = [] ∧ s.flushMarkers = 0 ∧ s.prepareMarkers = 0

instance (s : CallQueue) : Decidable s.Quiet :=
  inferInstanceAs (Decidable (_ ∧ _ ∧ _ ∧ _))

theorem Awake.idle (awake : Awake s) (quiet : s.Quiet) : s.NoneReady ∧ s.pending = [] := by
  rcases quiet with ⟨noJob, noBatch, noFlush, noPrepare⟩
  cases bursting : s.burstMaxSeq with
  | some last =>
      rcases awake.burst (by rw [bursting]; exact nofun) with jobs | batches | rest
      · exact absurd noJob jobs
      · exact absurd noBatch batches
      · exact ⟨rest.2, rest.1⟩
  | none =>
      constructor
      · intro entry filed
        have marked := awake.sound.prepareMarked
          (awake.marker bursting (.inr (List.ne_nil_of_mem filed)))
        omega
      · by_contra calls
        rcases awake.pending noBatch calls with marked | bursts
        · omega
        · exact bursts bursting

theorem Sound.perm (sound : Sound s) : (s.waiting ++ s.replied).Perm (List.range s.arrived) := by
  rw [List.perm_iff_count]
  intro caller
  rw [List.nodup_range.count, waiting]
  simp only [List.count_append, List.mem_range]
  exact sound.placed caller

theorem waiting_of_quiet (quiet : s.Quiet) (none : s.NoneReady) (noPending : s.pending = []) :
    s.waiting = [] := by
  have noPayload : s.prepared.entries.flatMap (fun entry => entry.2.callers) = [] := by
    rw [List.flatMap_eq_nil_iff]
    intro entry filed
    rw [none entry filed]
    rfl
  rw [waiting, quiet.1, noPayload, noPending, quiet.2.1]
  rfl

theorem Sound.pairwise (sound : Sound s) :
    (s.flushed ++ callersOf s.pending.reverse).Pairwise (· < ·) :=
  (sound.arrivals.sublist (List.take_sublist _ _)).sublist sound.inOrder

theorem awake_of_run (config : Config) {durable : List String} {events : List Event} {s : CallQueue}
    (meets : (machine config durable).Meets (fun state event => eventMeets config state event = true)
      (initial durable) events)
    (reached : (machine config durable).run (initial durable) events = some s) : Awake s := by
  have preserved : ∀ state event next, Awake state → eventMeets config state event = true →
      (machine config durable).step state event = some next → Awake next :=
    fun _ _ _ awake meets stepped => awake.step meets stepped
  exact Machine.run_preserves preserved (awake_initial durable) meets reached

/-- The Writer never stalls: once no job runs, no batch is open and no marker is out, no call
is left queued and every call was replied to once. At any time a call waits in one place or was
replied to once, and the calls enter the pipeline in the order they arrived. -/
theorem resumed_of_run (config : Config) {durable : List String} {events : List Event}
    {s : CallQueue}
    (meets : (machine config durable).Meets (fun state event => eventMeets config state event = true)
      (initial durable) events)
    (reached : (machine config durable).run (initial durable) events = some s) :
    (s.Quiet → s.NoneReady ∧ s.pending = [] ∧ s.replied.Perm (List.range s.arrived)) ∧
      (s.waiting ++ s.replied).Perm (List.range s.arrived) ∧
      (s.flushed ++ callersOf s.pending.reverse).Pairwise (· < ·) := by
  have awake := awake_of_run config meets reached
  have everyCall := awake.sound.perm
  refine ⟨fun quiet => ?_, everyCall, awake.sound.pairwise⟩
  rcases awake.idle quiet with ⟨noneReady, noPending⟩
  rw [waiting_of_quiet quiet noneReady noPending] at everyCall
  exact ⟨noneReady, noPending, everyCall⟩

def oneWrite (id : String) : List EnqueuedAction := [{ id, writes := true }]

def oneByOne : Config where
  batchMaxSize := 1
  maxInFlight := 1
  prepareQueueMax := 1000
  commitTimeoutMs := 30000
  someInFlight := Nat.one_pos

def succeeding : Answers where
  moves _ := false
  commits _ := true
  applies _ := true
  rebuilds _ := true

/-- Two calls that repeat a durable Action, then a fresh one, in one burst; the fresh one is
prepared first. -/
def repeatedWrites : List Event :=
  [.call (oneWrite "act_1") true, .prepareFlush succeeding, .committerResult 0 true succeeding,
    .call (oneWrite "act_1") true, .call (oneWrite "act_1") true, .call (oneWrite "act_2") true,
    .prepareFlush succeeding, .prepareResult 3 true succeeding, .prepareResult 2 true succeeding]

/-- The first three events of the run, and a second call behind them. -/
theorem resumed_of_secondWrite :
    ∃ s, (machine oneByOne []).run (initial [])
        (repeatedWrites.take 3 ++ [.call (oneWrite "act_2") true, .prepareFlush succeeding,
          .committerResult 1 true succeeding]) = some s ∧
      s.Quiet ∧ s.arrived = 2 ∧ s.replied.Perm [0, 1] := by
  have resumed := @resumed_of_run oneByOne []
    (repeatedWrites.take 3 ++ [.call (oneWrite "act_2") true, .prepareFlush succeeding,
      .committerResult 1 true succeeding]) _ (by decide) rfl
  exact ⟨_, rfl, by decide, rfl, (resumed.1 (by decide)).2.2⟩

def twoByTwo : Config where
  batchMaxSize := 0
  maxInFlight := 2
  prepareQueueMax := 1000
  commitTimeoutMs := 30000
  someInFlight := Nat.two_pos

def failing : Answers where
  moves _ := true
  commits _ := false
  applies _ := true
  rebuilds _ := false

/-- The commit of the first batch fails, and the batch behind it cannot be prepared again. -/
def failedRebuild : List Event :=
  [.call (oneWrite "act_1") true, .prepareFlush failing, .flush failing,
    .call (oneWrite "act_2") true, .prepareResult 1 true failing, .prepareFlush failing,
    .flush failing, .committerResult 0 false failing]

/-- A prepared call can be left with nothing to resume it, and a caller without a reply. -/
theorem queue_stalls :
    (¬ ∀ (config : Config) (events : List Event) (s : CallQueue),
      (machine config []).run (initial []) events = some s → s.Quiet →
        s.NoneReady ∧ s.pending = []) ∧
    ¬ ∀ (config : Config) (events : List Event) (s : CallQueue),
      (machine config []).run (initial []) events = some s → s.Quiet →
        s.NoneReady → s.pending = [] → ∀ caller < s.arrived, caller ∈ s.replied := by
  constructor
  · intro never
    have idle := never oneByOne repeatedWrites _ rfl (by decide)
    revert idle
    decide
  · intro everyone
    have replied := everyone twoByTwo failedRebuild _ rfl (by decide) (by decide) rfl 1 (by decide)
    revert replied
    decide

end Ebb.Server.CallQueue
