import Ebb.Server.CallQueue
import Mathlib.Data.List.Count

namespace Ebb.Server.CallQueue

/-! No call of the Writer is lost, overtaken or left waiting: where every call is, in which
order the calls are taken, and what resumes those that wait. -/

/-! ## Where a call is -/

def Payload.callers : Payload → List Nat
  | .ready call => [call.caller]
  | .skipped => []

/-- The callers of the batches that were not replied to yet; a batch a cache refused was. -/
def unanswered (batches : List OpenBatch) : List Nat :=
  (batches.filter fun batch => batch.phase ≠ .applying).flatMap fun batch =>
    callersOf batch.pending

def tally (preparing : OrderedMap Nat Call) (prepared : OrderedMap Nat Payload)
    (pending : List Call) (batches : List OpenBatch) (replied : List Nat) (caller : Nat) : Nat :=
  (preparing.entries.map fun entry => entry.2.caller).count caller +
    (prepared.entries.flatMap fun entry => entry.2.callers).count caller +
    (callersOf pending).count caller + (unanswered batches).count caller + replied.count caller

def places (s : CallQueue) (caller : Nat) : Nat :=
  tally s.preparing s.prepared s.pending s.batches s.replied caller

/-- The calls, their order and the messages that are out. -/
structure Sound (s : CallQueue) : Prop where
  flushMarked : s.flushScheduled = true → 0 < s.flushMarkers
  prepareMarked : s.prepareFlushScheduled = true → 0 < s.prepareMarkers
  burstKnown : ∀ {last}, s.burstMaxSeq = some last → last < s.nextCallSeq
  accepted : s.accepted.length = s.nextCallSeq
  arrivals : s.accepted.Pairwise (· < ·)
  arrived : ∀ caller ∈ s.accepted, caller < s.arrived
  enqueued : s.nextEnqueueSeq ≤ s.nextCallSeq
  job : ∀ {seq call}, s.preparing.get? seq = some call →
    s.nextEnqueueSeq ≤ seq ∧ s.accepted[seq]? = some call.caller
  payload : ∀ {seq payload}, s.prepared.get? seq = some payload →
    s.nextEnqueueSeq ≤ seq ∧ seq < s.nextCallSeq ∧ s.preparing.get? seq = none ∧
      ∀ caller ∈ payload.callers, s.accepted[seq]? = some caller
  covered : ∀ {seq}, s.nextEnqueueSeq ≤ seq → seq < s.nextCallSeq →
    (s.preparing.get? seq).isSome ∨ (s.prepared.get? seq).isSome
  inOrder : (s.flushed ++ callersOf s.pending.reverse).Sublist (s.accepted.take s.nextEnqueueSeq)
  refs : (s.batches.map OpenBatch.ref).Nodup
  refsKnown : ∀ ref ∈ s.batches.map OpenBatch.ref, ref < s.nextRef
  placed : ∀ caller, s.places caller = if caller < s.arrived then 1 else 0

theorem sound_initial (durable : List String) : Sound (initial durable) where
  flushMarked := nofun
  prepareMarked := nofun
  burstKnown := nofun
  accepted := rfl
  arrivals := List.Pairwise.nil
  arrived := nofun
  enqueued := Nat.le_refl _
  job := nofun
  payload := nofun
  covered _ later := absurd later (Nat.not_lt_zero _)
  inOrder := List.Sublist.refl _
  refs := List.nodup_nil
  refsKnown := nofun
  placed caller := by simp [places, tally, initial, OrderedMap.empty, callersOf, unanswered]

/-- Pending calls wait for a batch, a marker or the rest of their burst. -/
def PendingAwake (s : CallQueue) : Prop :=
  s.batches = [] → s.pending ≠ [] → 0 < s.flushMarkers ∨ s.burstMaxSeq ≠ none

/-- No call is prepared: what is left of a burst are the holes of calls that failed. -/
def NoneReady (s : CallQueue) : Prop := ∀ entry ∈ s.prepared.entries, entry.2 = .skipped

instance (s : CallQueue) : Decidable s.NoneReady := List.decidableBAll _ _

/-- A burst waits for a job or a batch, or has no call left. -/
def BurstAwake (s : CallQueue) : Prop :=
  s.burstMaxSeq ≠ none →
    s.preparing.entries ≠ [] ∨ s.batches ≠ [] ∨ s.pending = [] ∧ s.NoneReady

/-- Prepared calls wait for their burst or for the marker that starts it. -/
def MarkerAwake (s : CallQueue) : Prop :=
  s.burstMaxSeq = none → s.preparing.entries ≠ [] ∨ s.prepared.entries ≠ [] →
    s.prepareFlushScheduled = true

/-! ## What resumes a burst

The conditions follow a message through the states at which it advances the burst, which are
several where commits run in the Writer itself. -/

def taken (s : CallQueue) : CallQueue :=
  { s with
    pending := []
    flushScheduled := false
    flushed := s.flushed ++ callersOf s.pending.reverse }

section Conditions

variable (config : Config) (startMeets : CallQueue → Bool) (startNext : CallQueue → CallQueue)
  (answers : Answers)

/-- A full part of a burst either has something fresh in it, or no call is left behind it, or
a job or a batch is there to resume the burst. -/
def resumes (s : CallQueue) : Bool :=
  !s.capReached config || s.plan s.pending.reverse ≠ [] || decide s.NoneReady ||
    !s.preparing.entries.isEmpty || !s.batches.isEmpty

def flushMeets (s : CallQueue) : Bool :=
  s.plan s.pending.reverse = [] ||
    startMeets (s.taken.dispatch answers s.pending.reverse (s.plan s.pending.reverse))

def scheduleMeets (s : CallQueue) : Bool :=
  s.atCapacity config || s.pending = [] || !s.capReached config || s.flushMeets startMeets answers

def advanceMeets (s : CallQueue) : Bool :=
  match s.burstMaxSeq with
  | none => true
  | some last =>
      let part := takeBurst config last (s.prepared.entries.length + 1) s
      if last < part.nextEnqueueSeq then
        scheduleMeets config startMeets answers { part with burstMaxSeq := none }
      else part.resumes config && part.scheduleMeets config startMeets answers

def pipelineMeets (s : CallQueue) : Bool :=
  let (callers, batches, escalated) := drainReleasable answers s.batches
  let advanced := ({ s with batches }.reply callers).advanceBurst config startNext answers
  escalated ||
    ({ s with batches }.reply callers).advanceMeets config startMeets answers &&
      startMeets advanced && ((startNext advanced).burstMaxSeq ≠ none ||
        (startNext advanced).scheduleMeets config startMeets answers)

/-- Every batch that chained the abandoned one can be prepared again. -/
def rebuildMeets (abandoned : OpenBatch) (s : CallQueue) : Bool :=
  (s.batches.filter fun batch =>
    batch.phase = .prepared ∧ abandoned.gsnStart < batch.gsnStart).all fun batch =>
      answers.rebuilds batch.ref

def resultMeets (landed : Bool) (batch : OpenBatch) (s : CallQueue) : Bool :=
  if landed then
    pipelineMeets config startMeets startNext answers { s with
      batches := setPhase s.batches batch.ref .committed
      inFlight := s.inFlight.filter fun id => id ∉ batch.actionIds
      durable := s.durable ++ batch.actionIds }
  else
    (s.abandonBatch batch).rebuildMeets answers batch &&
      pipelineMeets config startMeets startNext answers
        (((s.abandonBatch batch).rebuildSuccessors answers batch).reply (callersOf batch.pending))

def startNextMeets : Nat → CallQueue → Bool
  | 0, _ => true
  | fuel + 1, s =>
      match readyBatch s.batches with
      | none => true
      | some batch =>
          !commitsInline config ||
            resultMeets config (startNextMeets fuel) (startNextCommit config answers fuel) answers
              (answers.commits batch.ref) batch
              { s with batches := setPhase s.batches batch.ref .committing }

end Conditions

/-- What a step of the pipeline inside a message keeps. -/
structure Keeps (startMeets : CallQueue → Bool) (startNext : CallQueue → CallQueue) : Prop where
  sound : ∀ {s}, Sound s → startMeets s = true → Sound (startNext s)
  pending : ∀ {s}, Sound s → startMeets s = true → PendingAwake s → PendingAwake (startNext s)
  burst : ∀ {s}, Sound s → startMeets s = true → BurstAwake s → BurstAwake (startNext s)
  marker : ∀ {s}, Sound s → MarkerAwake s → MarkerAwake (startNext s)

variable {config : Config} {startMeets : CallQueue → Bool} {startNext : CallQueue → CallQueue}
  {answers : Answers} {s : CallQueue}

/-! ## Flushing -/

theorem count_callersOf_reverse (calls : List Call) (caller : Nat) :
    (callersOf calls.reverse).count caller = (callersOf calls).count caller := by
  rw [callersOf, callersOf, List.map_reverse, List.count_reverse]

theorem callersOf_nil (caller : Nat) : (callersOf []).count caller = 0 := rfl

theorem unanswered_append (left right : List OpenBatch) :
    unanswered (left ++ right) = unanswered left ++ unanswered right := by
  rw [unanswered, unanswered, unanswered, List.filter_append, List.flatMap_append]

variable {batch : OpenBatch} {batches : List OpenBatch}

theorem unanswered_prepared (phase : batch.phase = .prepared) :
    unanswered [batch] = callersOf batch.pending := by
  simp [unanswered, phase]

theorem flush_eq (s : CallQueue) :
    s.flush startNext answers =
      if s.plan s.pending.reverse = [] then s.taken.reply (callersOf s.pending.reverse)
      else startNext
        (s.taken.dispatch answers s.pending.reverse (s.plan s.pending.reverse)) := rfl

theorem Sound.replyTaken (sound : Sound s) :
    Sound (s.taken.reply (callersOf s.pending.reverse)) where
  flushMarked := nofun
  prepareMarked := sound.prepareMarked
  burstKnown := sound.burstKnown
  accepted := sound.accepted
  arrivals := sound.arrivals
  arrived := sound.arrived
  enqueued := sound.enqueued
  job := sound.job
  payload := sound.payload
  covered := sound.covered
  inOrder := by
    change ((s.flushed ++ callersOf s.pending.reverse) ++ callersOf []).Sublist _
    rw [callersOf, callersOf, List.map_nil, List.append_nil]
    exact sound.inOrder
  refs := sound.refs
  refsKnown := sound.refsKnown
  placed caller := by
    refine Eq.trans ?_ (sound.placed caller)
    change tally s.preparing s.prepared [] s.batches
      (s.replied ++ callersOf s.pending.reverse) caller = s.places caller
    rw [places, tally, tally, List.count_append, count_callersOf_reverse, callersOf_nil]
    omega

theorem Sound.dispatchTaken (sound : Sound s) (fresh : List String) :
    Sound (s.taken.dispatch answers s.pending.reverse fresh) where
  flushMarked := nofun
  prepareMarked := sound.prepareMarked
  burstKnown := sound.burstKnown
  accepted := sound.accepted
  arrivals := sound.arrivals
  arrived := sound.arrived
  enqueued := sound.enqueued
  job := sound.job
  payload := sound.payload
  covered := sound.covered
  inOrder := by
    change ((s.flushed ++ callersOf s.pending.reverse) ++ callersOf []).Sublist _
    rw [callersOf, callersOf, List.map_nil, List.append_nil]
    exact sound.inOrder
  refs := by
    change ((s.batches ++ [_]).map OpenBatch.ref).Nodup
    rw [List.map_append, List.nodup_append']
    refine ⟨sound.refs, List.nodup_singleton _, ?_⟩
    intro ref listed new
    have known := sound.refsKnown ref listed
    have same : ref = s.nextRef := List.mem_singleton.mp new
    omega
  refsKnown ref member := by
    change ref ∈ (s.batches ++ [_]).map OpenBatch.ref at member
    change ref < s.nextRef + 1
    rw [List.map_append] at member
    rcases List.mem_append.mp member with old | new
    · have known := sound.refsKnown ref old
      omega
    · rw [List.mem_singleton.mp new]
      exact Nat.lt_succ_self _
  placed caller := by
    refine Eq.trans ?_ (sound.placed caller)
    change tally s.preparing s.prepared [] (s.batches ++ [_]) s.replied caller = s.places caller
    rw [places, tally, tally, unanswered_append, List.count_append, callersOf_nil,
      unanswered_prepared rfl]
    dsimp only
    rw [count_callersOf_reverse]
    omega

theorem of_flushMeets (meets : s.flushMeets startMeets answers = true)
    (fresh : s.plan s.pending.reverse ≠ []) :
    startMeets (s.taken.dispatch answers s.pending.reverse (s.plan s.pending.reverse)) = true := by
  rw [flushMeets, Bool.or_eq_true, decide_eq_true_eq] at meets
  exact meets.resolve_left fresh

theorem Keeps.flush_sound (keeps : Keeps startMeets startNext) (sound : Sound s)
    (meets : s.flushMeets startMeets answers = true) : Sound (s.flush startNext answers) := by
  rw [flush_eq]
  split
  · exact sound.replyTaken
  · next fresh => exact keeps.sound (sound.dispatchTaken _) (of_flushMeets meets fresh)

theorem batches_dispatch (pending : List Call) (fresh : List String) :
    (s.dispatch answers pending fresh).batches ≠ [] := by
  simp [dispatch]

theorem Keeps.flush_pending (keeps : Keeps startMeets startNext) (sound : Sound s)
    (meets : s.flushMeets startMeets answers = true) :
    PendingAwake (s.flush startNext answers) := by
  rw [flush_eq]
  split
  · exact fun _ waiting => absurd rfl waiting
  · next fresh =>
      apply keeps.pending (sound.dispatchTaken _) (of_flushMeets meets fresh)
      exact fun none => absurd none (batches_dispatch _ _)

theorem Keeps.flush_burst (keeps : Keeps startMeets startNext) (sound : Sound s)
    (meets : s.flushMeets startMeets answers = true)
    (awake : s.plan s.pending.reverse = [] → s.burstMaxSeq ≠ none →
      s.preparing.entries ≠ [] ∨ s.batches ≠ [] ∨ s.NoneReady) :
    BurstAwake (s.flush startNext answers) := by
  rw [flush_eq]
  split
  · next stale => exact fun bursting => (awake stale bursting).imp_right (Or.imp_right fun none =>
      ⟨rfl, none⟩)
  · next fresh =>
      apply keeps.burst (sound.dispatchTaken _) (of_flushMeets meets fresh)
      exact fun _ => .inr (.inl (batches_dispatch _ _))

theorem Keeps.flush_marker (keeps : Keeps startMeets startNext) (sound : Sound s) (awake : MarkerAwake s) :
    MarkerAwake (s.flush startNext answers) := by
  rw [flush_eq]
  split
  · exact awake
  · exact keeps.marker (sound.dispatchTaken _) awake

/-! ## Scheduling -/

theorem ne_nil_of_atCapacity (full : s.atCapacity config = true) : s.batches ≠ [] := by
  intro none
  have some := config.someInFlight
  rw [atCapacity, none, decide_eq_true_eq, List.length_nil] at full
  omega

theorem pending_of_capReached (full : s.capReached config = true) : s.pending ≠ [] := by
  intro none
  rw [capReached, pendingCount, none, Bool.and_eq_true, decide_eq_true_eq, decide_eq_true_eq] at full
  have count : (([] : List Call).map fun call => call.actions.length).sum = 0 := rfl
  omega

theorem of_scheduleMeets (meets : s.scheduleMeets config startMeets answers = true)
    (room : ¬ s.atCapacity config = true) (waiting : s.pending ≠ [])
    (full : s.capReached config = true) : s.flushMeets startMeets answers = true := by
  simpa [scheduleMeets, room, waiting, full] using meets

section

variable (keeps : Keeps startMeets startNext)
include keeps

theorem Keeps.schedule_sound (sound : Sound s)
    (meets : s.scheduleMeets config startMeets answers = true) :
    Sound (scheduleFlushNow config startNext answers s) := by
  rw [scheduleFlushNow]
  split
  · exact sound
  · next room =>
      split
      · exact { sound with flushMarked := nofun }
      · next waiting =>
          split
          · next full => exact keeps.flush_sound sound (of_scheduleMeets meets room waiting full)
          · split
            · exact sound
            · exact { sound with flushMarked := fun _ => Nat.succ_pos _ }

theorem Keeps.schedule_pending (sound : Sound s)
    (meets : s.scheduleMeets config startMeets answers = true) :
    PendingAwake (scheduleFlushNow config startNext answers s) := by
  rw [scheduleFlushNow]
  split
  · next full => exact fun none => absurd none (ne_nil_of_atCapacity full)
  · next room =>
      split
      · next empty => exact fun _ waiting => absurd empty waiting
      · next waiting =>
          split
          · next full => exact keeps.flush_pending sound (of_scheduleMeets meets room waiting full)
          · split
            · next marked => exact fun _ _ => .inl (sound.flushMarked marked)
            · exact fun _ _ => .inl (Nat.succ_pos _)

theorem Keeps.schedule_burst (sound : Sound s)
    (meets : s.scheduleMeets config startMeets answers = true) (awake : BurstAwake s) :
    BurstAwake (scheduleFlushNow config startNext answers s) := by
  rw [scheduleFlushNow]
  split
  · exact awake
  · next room =>
      split
      · exact awake
      · next waiting =>
          split
          · next full =>
              apply keeps.flush_burst sound (of_scheduleMeets meets room waiting full)
              exact fun _ bursting => (awake bursting).imp_right (Or.imp_right And.right)
          · split
            · exact awake
            · exact awake

theorem Keeps.schedule_marker (sound : Sound s) (awake : MarkerAwake s) :
    MarkerAwake (scheduleFlushNow config startNext answers s) := by
  rw [scheduleFlushNow]
  split
  · exact awake
  · split
    · exact awake
    · split
      · exact keeps.flush_marker sound awake
      · split
        · exact awake
        · exact awake

theorem Keeps.scheduleFull_burst (sound : Sound s) (full : s.capReached config = true)
    (resumes : s.resumes config = true)
    (meets : s.scheduleMeets config startMeets answers = true) :
    BurstAwake (scheduleFlushNow config startNext answers s) := by
  rw [scheduleFlushNow]
  split
  · next atCapacity =>
      exact fun _ => .inr (.inl (@ne_nil_of_atCapacity config _ atCapacity))
  · next room =>
      have waiting : s.pending ≠ [] := pending_of_capReached full
      rw [if_neg waiting]
      apply keeps.flush_burst sound (of_scheduleMeets meets room waiting full)
      intro stale _
      simp only [CallQueue.resumes, full, stale, Bool.or_eq_true, Bool.not_eq_true', decide_eq_true_eq,
        List.isEmpty_eq_false_iff, ne_eq, not_true, decide_false, Bool.not_true, false_or,
        Bool.false_eq_true] at resumes
      rcases resumes with (none | jobs) | batches
      · exact .inr (.inr none)
      · exact .inl jobs
      · exact .inr (.inl batches)

end

theorem Sound.maybeSchedule (sound : Sound s) : Sound s.maybeSchedulePrepareFlush := by
  rw [maybeSchedulePrepareFlush]
  split
  · exact sound
  · split
    · exact sound
    · split
      · exact sound
      · exact { sound with prepareMarked := fun _ => Nat.succ_pos _ }

theorem marker_maybeSchedule (s : CallQueue) : MarkerAwake s.maybeSchedulePrepareFlush := by
  rw [maybeSchedulePrepareFlush]
  split
  · next scheduled => exact fun _ _ => scheduled
  · split
    · next bursting => exact fun none => absurd none bursting
    · split
      · next empty =>
          intro _ waiting
          rcases waiting with jobs | payloads
          · exact absurd (List.length_eq_zero_iff.mp (by omega)) jobs
          · exact absurd (List.length_eq_zero_iff.mp (by omega)) payloads
      · exact fun _ _ => rfl

theorem pending_maybeSchedule (awake : PendingAwake s) :
    PendingAwake s.maybeSchedulePrepareFlush := by
  rw [maybeSchedulePrepareFlush]
  split
  · exact awake
  · split
    · exact awake
    · split
      · exact awake
      · exact awake

theorem burst_maybeSchedule (awake : BurstAwake s) : BurstAwake s.maybeSchedulePrepareFlush := by
  rw [maybeSchedulePrepareFlush]
  split
  · exact awake
  · split
    · exact awake
    · split
      · exact awake
      · exact awake

/-! ## Bursts -/

def Payload.calls : Payload → List Call
  | .ready call => [call]
  | .skipped => []

def pop (payload : Payload) (s : CallQueue) : CallQueue :=
  { s with
    prepared := s.prepared.erase s.nextEnqueueSeq
    nextEnqueueSeq := s.nextEnqueueSeq + 1
    pending := payload.calls ++ s.pending }

theorem Sound.pop (sound : Sound s) {payload : Payload}
    (found : s.prepared.get? s.nextEnqueueSeq = some payload) : Sound (s.pop payload) := by
  rcases sound.payload found with ⟨_, known, noJob, accepted⟩
  constructor
  case flushMarked => exact sound.flushMarked
  case prepareMarked => exact sound.prepareMarked
  case burstKnown => exact sound.burstKnown
  case accepted => exact sound.accepted
  case arrivals => exact sound.arrivals
  case arrived => exact sound.arrived
  case enqueued => exact known
  case job =>
    intro seq call job
    change s.nextEnqueueSeq + 1 ≤ seq ∧ _
    rcases sound.job job with ⟨later, listed⟩
    have different : seq ≠ s.nextEnqueueSeq := by
      rintro rfl
      have absent : s.preparing.get? s.nextEnqueueSeq = some call := job
      rw [noJob] at absent
      cases absent
    exact ⟨by omega, listed⟩
  case payload =>
    intro seq other otherFound
    change (s.prepared.erase s.nextEnqueueSeq).get? seq = some other at otherFound
    change s.nextEnqueueSeq + 1 ≤ seq ∧ _
    rw [OrderedMap.get?_erase] at otherFound
    split at otherFound
    · cases otherFound
    · rcases sound.payload otherFound with ⟨later, rest⟩
      exact ⟨by omega, rest⟩
  case covered =>
    intro seq later earlier
    change s.nextEnqueueSeq + 1 ≤ seq at later
    change _ ∨ ((s.prepared.erase s.nextEnqueueSeq).get? seq).isSome
    rw [OrderedMap.get?_erase, if_neg (by omega)]
    exact sound.covered (by omega) earlier
  case inOrder =>
    change (s.flushed ++ callersOf (payload.calls ++ s.pending).reverse).Sublist
      (s.accepted.take (s.nextEnqueueSeq + 1))
    rw [List.take_add_one]
    cases payload with
    | skipped => exact sound.inOrder.trans (List.sublist_append_left _ _)
    | ready call =>
        rw [accepted call.caller List.mem_cons_self, List.reverse_append, callersOf, List.map_append,
          ← List.append_assoc]
        exact sound.inOrder.append (List.Sublist.refl [call.caller])
  case refs => exact sound.refs
  case refsKnown => exact sound.refsKnown
  case placed =>
    intro caller
    refine Eq.trans ?_ (sound.placed caller)
    change tally s.preparing (s.prepared.erase s.nextEnqueueSeq) (payload.calls ++ s.pending)
      s.batches s.replied caller = s.places caller
    rcases OrderedMap.exists_split found with ⟨before, after, split, erased, _⟩
    rw [places, tally, tally, split, erased]
    cases payload with
    | skipped => simp [Payload.callers, Payload.calls, callersOf]
    | ready call =>
        simp only [Payload.callers, Payload.calls, callersOf, List.flatMap_append, List.flatMap_cons,
          List.count_append, List.map_append, List.map_cons, List.map_nil]
        omega

theorem length_erase_lt {map : OrderedMap Nat Payload} {seq : Nat} {payload : Payload}
    (found : map.get? seq = some payload) : (map.erase seq).entries.length <
      map.entries.length := by
  rcases OrderedMap.exists_split found with ⟨before, after, split, erased, _⟩
  rw [split, erased, List.length_append, List.length_append, List.length_cons]
  omega

/-- What taking a part of the burst leaves alone, and where it stops. -/
structure Took (config : Config) (last : Nat) (s next : CallQueue) : Prop where
  sound : Sound next
  preparing : next.preparing = s.preparing
  batches : next.batches = s.batches
  burst : next.burstMaxSeq = s.burstMaxSeq
  scheduled : next.prepareFlushScheduled = s.prepareFlushScheduled
  calls : next.nextCallSeq = s.nextCallSeq
  stops : last < next.nextEnqueueSeq ∨ next.capReached config = true ∨
    next.prepared.get? next.nextEnqueueSeq = none

theorem takeBurst_spec (config : Config) (last : Nat) {fuel : Nat} (sound : Sound s)
    (enough : s.prepared.entries.length < fuel) :
    Took config last s (takeBurst config last fuel s) := by
  induction fuel generalizing s with
  | zero => exact absurd enough (Nat.not_lt_zero _)
  | succ fuel induction =>
      have stay (stops : last < s.nextEnqueueSeq ∨ s.capReached config = true ∨
          s.prepared.get? s.nextEnqueueSeq = none) : Took config last s s :=
        ⟨sound, rfl, rfl, rfl, rfl, rfl, stops⟩
      have move {payload : Payload} (found : s.prepared.get? s.nextEnqueueSeq = some payload) :
          Took config last s (takeBurst config last fuel (s.pop payload)) := by
        have shorter := length_erase_lt found
        have later := induction (sound.pop found) (by change (s.prepared.erase _).entries.length < fuel; omega)
        exact ⟨later.sound, later.preparing, later.batches, later.burst, later.scheduled,
          later.calls, later.stops⟩
      rw [takeBurst]
      split
      · next finished => exact stay (.inl finished)
      · split
        · next full => exact stay (.inr (.inl full))
        · dsimp only
          split
          · next absent => exact stay (.inr (.inr absent))
          · next found => exact move found
          · next call found => exact move found

theorem Took.waits {last : Nat} {next : CallQueue} (took : Took config last s next)
    (sound : Sound s) (bursting : s.burstMaxSeq = some last)
    (unfinished : ¬ last < next.nextEnqueueSeq) (room : ¬ next.capReached config = true) :
    next.preparing.entries ≠ [] := by
  have absent : next.prepared.get? next.nextEnqueueSeq = none := by
    rcases took.stops with finished | full | absent
    · exact absurd finished unfinished
    · exact absurd full room
    · exact absent
  have known := sound.burstKnown bursting
  have reaches : next.nextEnqueueSeq < next.nextCallSeq := by
    rw [took.calls]
    omega
  rcases took.sound.covered (Nat.le_refl _) reaches with job | payload
  · intro none
    rw [OrderedMap.get?, none] at job
    cases job
  · rw [absent] at payload
    cases payload

theorem advanceBurst_eq {last : Nat} (bursting : s.burstMaxSeq = some last) :
    s.advanceBurst config startNext answers =
      let next := takeBurst config last (s.prepared.entries.length + 1) s
      if last < next.nextEnqueueSeq then
        (scheduleFlushNow config startNext answers
          { next with burstMaxSeq := none }).maybeSchedulePrepareFlush
      else if next.capReached config then scheduleFlushNow config startNext answers next
      else next := by
  rw [advanceBurst, bursting]

theorem advanceMeets_eq {last : Nat} (bursting : s.burstMaxSeq = some last) :
    s.advanceMeets config startMeets answers =
      let part := takeBurst config last (s.prepared.entries.length + 1) s
      if last < part.nextEnqueueSeq then
        scheduleMeets config startMeets answers { part with burstMaxSeq := none }
      else part.resumes config && part.scheduleMeets config startMeets answers := by
  rw [advanceMeets, bursting]

section

variable (keeps : Keeps startMeets startNext) (sound : Sound s)
  (meets : s.advanceMeets config startMeets answers = true)

include keeps sound meets

theorem Keeps.advance_sound : Sound (s.advanceBurst config startNext answers) := by
  cases bursting : s.burstMaxSeq with
  | none =>
      rw [advanceBurst, bursting]
      exact sound
  | some last =>
      have took := takeBurst_spec config last sound (Nat.lt_succ_self _)
      rw [advanceMeets_eq bursting] at meets
      rw [advanceBurst_eq bursting]
      dsimp only at meets ⊢
      split
      · next finished =>
          rw [if_pos finished] at meets
          have ended : Sound { takeBurst config last (s.prepared.entries.length + 1) s with
              burstMaxSeq := none } := { took.sound with burstKnown := nofun }
          exact (keeps.schedule_sound ended meets).maybeSchedule
      · next unfinished =>
          rw [if_neg unfinished, Bool.and_eq_true] at meets
          split
          · exact keeps.schedule_sound took.sound meets.2
          · exact took.sound

theorem Keeps.advance_burst : BurstAwake (s.advanceBurst config startNext answers) := by
  cases bursting : s.burstMaxSeq with
  | none =>
      rw [advanceBurst, bursting]
      exact fun bursts => absurd bursting bursts
  | some last =>
      have took := takeBurst_spec config last sound (Nat.lt_succ_self _)
      rw [advanceMeets_eq bursting] at meets
      rw [advanceBurst_eq bursting]
      dsimp only at meets ⊢
      split
      · next finished =>
          rw [if_pos finished] at meets
          have ended : Sound { takeBurst config last (s.prepared.entries.length + 1) s with
              burstMaxSeq := none } := { took.sound with burstKnown := nofun }
          apply burst_maybeSchedule
          exact keeps.schedule_burst ended meets fun bursts => absurd rfl bursts
      · next unfinished =>
          rw [if_neg unfinished, Bool.and_eq_true] at meets
          split
          · next full => exact keeps.scheduleFull_burst took.sound full meets.1 meets.2
          · next room => exact fun _ => .inl (took.waits sound bursting unfinished room)

theorem Keeps.advance_pending (awake : PendingAwake s) :
    PendingAwake (s.advanceBurst config startNext answers) := by
  cases bursting : s.burstMaxSeq with
  | none =>
      rw [advanceBurst, bursting]
      exact awake
  | some last =>
      have took := takeBurst_spec config last sound (Nat.lt_succ_self _)
      rw [advanceMeets_eq bursting] at meets
      rw [advanceBurst_eq bursting]
      dsimp only at meets ⊢
      split
      · next finished =>
          rw [if_pos finished] at meets
          have ended : Sound { takeBurst config last (s.prepared.entries.length + 1) s with
              burstMaxSeq := none } := { took.sound with burstKnown := nofun }
          exact pending_maybeSchedule (keeps.schedule_pending ended meets)
      · next unfinished =>
          rw [if_neg unfinished, Bool.and_eq_true] at meets
          split
          · exact keeps.schedule_pending took.sound meets.2
          · exact fun _ _ => .inr (by rw [took.burst, bursting]; exact nofun)

end

theorem Keeps.advance_marker (keeps : Keeps startMeets startNext) (sound : Sound s) (awake : MarkerAwake s) :
    MarkerAwake (s.advanceBurst config startNext answers) := by
  cases bursting : s.burstMaxSeq with
  | none =>
      rw [advanceBurst, bursting]
      exact awake
  | some last =>
      have took := takeBurst_spec config last sound (Nat.lt_succ_self _)
      have bursts : (takeBurst config last (s.prepared.entries.length + 1) s).burstMaxSeq ≠ none := by
        rw [took.burst, bursting]
        exact nofun
      rw [advanceBurst_eq bursting]
      dsimp only
      split
      · exact marker_maybeSchedule _
      · split
        · exact keeps.schedule_marker took.sound fun none => absurd none bursts
        · exact fun none => absurd none bursts

/-! ## The pipeline -/

theorem drainReleasable_spec (answers : Answers) (batches : List OpenBatch) :
    ((drainReleasable answers batches).2.1.map OpenBatch.ref).Sublist
        (batches.map OpenBatch.ref) ∧
      (∀ caller, (drainReleasable answers batches).1.count caller +
        (unanswered (drainReleasable answers batches).2.1).count caller =
          (unanswered batches).count caller) ∧
      ((drainReleasable answers batches).2.2 = true →
        (drainReleasable answers batches).2.1 ≠ []) := by
  induction batches with
  | nil => simp [drainReleasable]
  | cons batch rest induction =>
      rcases result : drainReleasable answers rest with ⟨callers, remaining, escalated⟩
      rw [result] at induction
      rcases induction with ⟨refs, counts, escalates⟩
      have head : batch.phase = .committed → unanswered (batch :: rest) =
          callersOf batch.pending ++ unanswered rest := by
        intro phase
        simp [unanswered, phase]
      rw [drainReleasable, result]
      split
      · next committed =>
          split
          · refine ⟨refs.trans (List.sublist_cons_self _ _), fun caller => ?_, escalates⟩
            have later : callers.count caller + (unanswered remaining).count caller =
              (unanswered rest).count caller := counts caller
            change (callersOf batch.pending ++ callers).count caller +
              (unanswered remaining).count caller = _
            rw [head committed, List.count_append, List.count_append]
            omega
          · refine ⟨List.Sublist.refl _, fun caller => ?_, fun _ => nofun⟩
            rw [head committed]
            simp [unanswered]
      · exact ⟨List.Sublist.refl _, fun caller => by simp, nofun⟩

theorem Sound.drained (sound : Sound s) (answers : Answers) :
    Sound ({ s with batches := (drainReleasable answers s.batches).2.1 }.reply
      (drainReleasable answers s.batches).1) := by
  rcases drainReleasable_spec answers s.batches with ⟨refs, counts, _⟩
  refine { sound with refs := sound.refs.sublist refs, refsKnown := ?_, placed := ?_ }
  · exact fun ref member => sound.refsKnown ref (refs.subset member)
  · intro caller
    refine Eq.trans ?_ (sound.placed caller)
    have count := counts caller
    change tally s.preparing s.prepared s.pending (drainReleasable answers s.batches).2.1
      (s.replied ++ (drainReleasable answers s.batches).1) caller = s.places caller
    rw [places, tally, tally, List.count_append]
    omega

theorem advancePipeline_eq (s : CallQueue) :
    s.advancePipeline config startNext answers =
      let drained := { s with batches := (drainReleasable answers s.batches).2.1 }.reply
        (drainReleasable answers s.batches).1
      if (drainReleasable answers s.batches).2.2 then drained
      else
        let started := startNext (drained.advanceBurst config startNext answers)
        (if started.burstMaxSeq = none then scheduleFlushNow config startNext answers started
          else started).maybeSchedulePrepareFlush := rfl

theorem of_pipelineMeets
    (meets : s.pipelineMeets config startMeets startNext answers = true)
    (kept : ¬ (drainReleasable answers s.batches).2.2 = true) :
    let drained := { s with batches := (drainReleasable answers s.batches).2.1 }.reply
      (drainReleasable answers s.batches).1
    let advanced := drained.advanceBurst config startNext answers
    drained.advanceMeets config startMeets answers = true ∧ startMeets advanced = true ∧
      ((startNext advanced).burstMaxSeq = none →
        (startNext advanced).scheduleMeets config startMeets answers = true) := by
  rw [Bool.not_eq_true] at kept
  simp only [pipelineMeets, kept, Bool.false_or, Bool.and_eq_true, Bool.or_eq_true,
    decide_eq_true_eq, ne_eq] at meets
  exact ⟨meets.1.1, meets.1.2, fun none => meets.2.resolve_left fun bursting => bursting none⟩

section

variable (keeps : Keeps startMeets startNext) (sound : Sound s)
  (meets : s.pipelineMeets config startMeets startNext answers = true)

include keeps sound meets

theorem Keeps.pipeline_sound : Sound (s.advancePipeline config startNext answers) := by
  have drained := sound.drained answers
  rw [advancePipeline_eq]
  dsimp only
  split
  · exact drained
  · next kept =>
      rcases of_pipelineMeets meets kept with ⟨advances, starts, schedules⟩
      apply Sound.maybeSchedule
      have started := keeps.sound (keeps.advance_sound drained advances) starts
      split
      · next resting => exact keeps.schedule_sound started (schedules resting)
      · exact started

theorem Keeps.pipeline_pending : PendingAwake (s.advancePipeline config startNext answers) := by
  have drained := sound.drained answers
  have escalates := (drainReleasable_spec answers s.batches).2.2
  rw [advancePipeline_eq]
  dsimp only
  split
  · next escalated => exact fun none => absurd none (escalates escalated)
  · next kept =>
      rcases of_pipelineMeets meets kept with ⟨advances, starts, schedules⟩
      have started := keeps.sound (keeps.advance_sound drained advances) starts
      apply pending_maybeSchedule
      split
      · next resting => exact keeps.schedule_pending started (schedules resting)
      · next bursting => exact fun _ _ => .inr bursting

theorem Keeps.pipeline_burst : BurstAwake (s.advancePipeline config startNext answers) := by
  have drained := sound.drained answers
  have escalates := (drainReleasable_spec answers s.batches).2.2
  rw [advancePipeline_eq]
  dsimp only
  split
  · next escalated => exact fun _ => .inr (.inl (escalates escalated))
  · next kept =>
      rcases of_pipelineMeets meets kept with ⟨advances, starts, schedules⟩
      have advanced := keeps.advance_sound drained advances
      have burst := keeps.burst advanced starts (keeps.advance_burst drained advances)
      apply burst_maybeSchedule
      split
      · next resting =>
          exact keeps.schedule_burst (keeps.sound advanced starts) (schedules resting) burst
      · exact burst

end

theorem Keeps.pipeline_marker (awake : MarkerAwake s) :
    MarkerAwake (s.advancePipeline config startNext answers) := by
  rw [advancePipeline_eq]
  dsimp only
  split
  · exact awake
  · exact marker_maybeSchedule _

/-! ## Commits -/

theorem setPhase_refs (batches : List OpenBatch) (ref : Nat) (phase : BatchPhase) :
    (setPhase batches ref phase).map OpenBatch.ref = batches.map OpenBatch.ref := by
  rw [setPhase, List.map_map]
  apply List.map_congr_left
  intro batch _
  change (if batch.ref = ref then { batch with phase } else batch).ref = batch.ref
  split
  · rfl
  · rfl

theorem unanswered_setPhase {ref : Nat} {phase : BatchPhase} (target : phase ≠ .applying)
    (open' : ∀ batch ∈ batches, batch.ref = ref → batch.phase ≠ .applying) :
    unanswered (setPhase batches ref phase) = unanswered batches := by
  induction batches with
  | nil => rfl
  | cons batch rest induction =>
      have later := induction fun other member => open' other (List.mem_cons_of_mem _ member)
      have splitCons : ∀ (head : OpenBatch) (tail : List OpenBatch),
          unanswered (head :: tail) = unanswered [head] ++ unanswered tail :=
        fun head tail => unanswered_append [head] tail
      rw [setPhase, List.map_cons, splitCons, splitCons batch rest, ← setPhase, later]
      congr 1
      split
      · next same =>
          have opened := open' batch List.mem_cons_self same
          simp [unanswered, target, opened]
      · rfl

def Holds (s : CallQueue) (batch : OpenBatch) : Prop :=
  ∃ current ∈ s.batches, current.ref = batch.ref ∧ current.pending = batch.pending ∧
    current.phase ≠ .applying

theorem Sound.unique (sound : Sound s) {left right : OpenBatch} (leftMember : left ∈ s.batches)
    (rightMember : right ∈ s.batches) (same : left.ref = right.ref) : left = right :=
  List.inj_on_of_nodup_map sound.refs leftMember rightMember same

theorem Sound.setPhase (sound : Sound s) {phase : BatchPhase} (holds : s.Holds batch)
    (target : phase ≠ .applying) :
    Sound { s with batches := CallQueue.setPhase s.batches batch.ref phase } := by
  rcases holds with ⟨current, member, sameRef, _, opened⟩
  have refs := setPhase_refs s.batches batch.ref phase
  refine { sound with refs := ?_, refsKnown := ?_, placed := fun caller => ?_ }
  · rw [refs]
    exact sound.refs
  · rw [refs]
    exact sound.refsKnown
  · refine Eq.trans ?_ (sound.placed caller)
    have same : unanswered (CallQueue.setPhase s.batches batch.ref phase) = unanswered s.batches := by
      apply unanswered_setPhase target
      intro other listed otherRef
      rw [sound.unique listed member (otherRef.trans sameRef.symm)]
      exact opened
    change tally s.preparing s.prepared s.pending _ s.replied caller = s.places caller
    rw [places, tally, tally, same]

theorem count_unanswered_filter (distinct : (batches.map OpenBatch.ref).Nodup) {current : OpenBatch}
    (member : current ∈ batches) (opened : current.phase ≠ .applying) (caller : Nat) :
    (unanswered (batches.filter fun other => other.ref ≠ current.ref)).count caller +
      (callersOf current.pending).count caller = (unanswered batches).count caller := by
  induction batches with
  | nil => cases member
  | cons head rest induction =>
      have splitCons : ∀ tail : List OpenBatch,
          unanswered (head :: tail) = unanswered [head] ++ unanswered tail :=
        fun tail => unanswered_append [head] tail
      rw [List.map_cons, List.nodup_cons] at distinct
      rcases List.mem_cons.mp member with isHead | later
      · subst isHead
        have others : (rest.filter fun other => other.ref ≠ current.ref) = rest := by
          rw [List.filter_eq_self]
          intro other listed
          rw [decide_eq_true_eq]
          intro same
          exact distinct.1 (same ▸ List.mem_map_of_mem listed)
        have alone : unanswered [current] = callersOf current.pending := by
          simp [unanswered, opened]
        rw [List.filter_cons_of_neg (by simp), others, splitCons, alone, List.count_append]
        omega
      · have different : head.ref ≠ current.ref := by
          intro same
          exact distinct.1 (same ▸ List.mem_map_of_mem later)
        have inner := induction distinct.2 later
        rw [List.filter_cons_of_pos (by simpa using different), splitCons, splitCons rest,
          List.count_append, List.count_append]
        omega

theorem unanswered_map {change : OpenBatch → OpenBatch}
    (phase : ∀ batch, (change batch).phase = batch.phase)
    (pending : ∀ batch, (change batch).pending = batch.pending) (batches : List OpenBatch) :
    unanswered (batches.map change) = unanswered batches := by
  have opened : ((fun batch : OpenBatch => decide (batch.phase ≠ .applying)) ∘ change) =
      fun batch => decide (batch.phase ≠ .applying) := by
    funext batch
    rw [Function.comp_apply, phase]
  rw [unanswered, unanswered, List.filter_map, opened, List.flatMap_map]
  simp only [pending]

theorem rebuildSuccessors_spec (abandoned : OpenBatch) (s : CallQueue) :
    ∃ batches inFlight, s.rebuildSuccessors answers abandoned = { s with batches, inFlight } ∧
      (batches.map OpenBatch.ref).Sublist (s.batches.map OpenBatch.ref) ∧
      (s.rebuildMeets answers abandoned = true → unanswered batches = unanswered s.batches) := by
  rw [rebuildSuccessors, rebuildMeets]
  generalize s.batches.filter _ = successors
  induction successors generalizing s with
  | nil => exact ⟨s.batches, s.inFlight, rfl, List.Sublist.refl _, fun _ => rfl⟩
  | cons batch rest induction =>
      rw [List.foldl_cons, List.all_cons]
      split
      · next rebuilds =>
          rcases induction { s with batches := s.batches.map fun other =>
              if other.ref = batch.ref then { other with movesGroups := answers.moves batch.ref }
              else other } with ⟨batches, inFlight, result, refs, same⟩
          refine ⟨batches, inFlight, result, ?_, fun all => ?_⟩
          · have sameRefs : (s.batches.map fun other =>
                if other.ref = batch.ref then { other with movesGroups := answers.moves batch.ref }
                else other).map OpenBatch.ref = s.batches.map OpenBatch.ref := by
              rw [List.map_map]
              apply List.map_congr_left
              intro other _
              rw [Function.comp_apply]
              split
              · rfl
              · rfl
            exact sameRefs ▸ refs
          · rw [Bool.and_eq_true] at all
            refine (same all.2).trans (unanswered_map ?_ ?_ _)
            · intro other
              split
              · rfl
              · rfl
            · intro other
              split
              · rfl
              · rfl
      · next fails =>
          rcases induction (s.abandonBatch batch) with ⟨batches, inFlight, result, refs, _⟩
          refine ⟨batches, inFlight, result, refs.trans (List.filter_sublist.map OpenBatch.ref), ?_⟩
          intro all
          rw [Bool.and_eq_true] at all
          exact absurd all.1 fails

theorem Sound.abandoned (sound : Sound s) (holds : s.Holds batch)
    (meets : (s.abandonBatch batch).rebuildMeets answers batch = true) :
    Sound (((s.abandonBatch batch).rebuildSuccessors answers batch).reply
      (callersOf batch.pending)) := by
  rcases holds with ⟨current, member, sameRef, samePending, opened⟩
  rcases @rebuildSuccessors_spec answers batch (s.abandonBatch batch) with
    ⟨batches, inFlight, rebuilt, refs, same⟩
  have sublist : (batches.map OpenBatch.ref).Sublist (s.batches.map OpenBatch.ref) :=
    refs.trans (List.filter_sublist.map OpenBatch.ref)
  rw [rebuilt]
  refine { sound with
    refs := sound.refs.sublist sublist
    refsKnown := fun ref listed => sound.refsKnown ref (sublist.subset listed)
    placed := fun caller => ?_ }
  refine Eq.trans ?_ (sound.placed caller)
  have counts := count_unanswered_filter sound.refs member opened caller
  rw [sameRef, samePending] at counts
  change tally s.preparing s.prepared s.pending batches
    (s.replied ++ callersOf batch.pending) caller = s.places caller
  rw [places, tally, tally, same meets, List.count_append]
  change _ + _ + _ + (unanswered (s.batches.filter fun other => other.ref ≠ batch.ref)).count
    caller + _ = _
  omega

theorem marker_abandoned (batch : OpenBatch) (awake : MarkerAwake s) :
    MarkerAwake (((s.abandonBatch batch).rebuildSuccessors answers batch).reply
      (callersOf batch.pending)) := by
  rcases @rebuildSuccessors_spec answers batch (s.abandonBatch batch) with ⟨_, _, rebuilt, _⟩
  rw [rebuilt]
  exact awake

theorem Sound.committed (sound : Sound s) (holds : s.Holds batch) :
    Sound { s with
      batches := CallQueue.setPhase s.batches batch.ref .committed
      inFlight := s.inFlight.filter fun id => id ∉ batch.actionIds
      durable := s.durable ++ batch.actionIds } := by
  have target : BatchPhase.committed ≠ .applying := nofun
  exact { sound.setPhase holds target with }

section

variable (keeps : Keeps startMeets startNext) (sound : Sound s) (holds : s.Holds batch)
  {landed : Bool}
  (meets : s.resultMeets config startMeets startNext answers landed batch = true)

include keeps sound holds meets

theorem Keeps.result_sound :
    Sound (s.handleCommitResult config startNext answers landed batch) := by
  rw [handleCommitResult]
  split
  · next isLanded =>
      rw [resultMeets, if_pos isLanded] at meets
      exact keeps.pipeline_sound (sound.committed holds) meets
  · next abandons =>
      rw [resultMeets, if_neg abandons, Bool.and_eq_true] at meets
      exact keeps.pipeline_sound (sound.abandoned holds meets.1) meets.2

theorem Keeps.result_pending :
    PendingAwake (s.handleCommitResult config startNext answers landed batch) := by
  rw [handleCommitResult]
  split
  · next isLanded =>
      rw [resultMeets, if_pos isLanded] at meets
      exact keeps.pipeline_pending (sound.committed holds) meets
  · next abandons =>
      rw [resultMeets, if_neg abandons, Bool.and_eq_true] at meets
      exact keeps.pipeline_pending (sound.abandoned holds meets.1) meets.2

theorem Keeps.result_burst :
    BurstAwake (s.handleCommitResult config startNext answers landed batch) := by
  rw [handleCommitResult]
  split
  · next isLanded =>
      rw [resultMeets, if_pos isLanded] at meets
      exact keeps.pipeline_burst (sound.committed holds) meets
  · next abandons =>
      rw [resultMeets, if_neg abandons, Bool.and_eq_true] at meets
      exact keeps.pipeline_burst (sound.abandoned holds meets.1) meets.2

end

theorem result_marker (landed : Bool) (batch : OpenBatch) (awake : MarkerAwake s) :
    MarkerAwake (s.handleCommitResult config startNext answers landed batch) := by
  rw [handleCommitResult]
  split
  · exact Keeps.pipeline_marker awake
  · exact Keeps.pipeline_marker (marker_abandoned _ awake)

theorem readyBatch_spec (ready : readyBatch batches = some batch)
    : batch ∈ batches ∧ batch.phase = .prepared := by
  have first := (Option.filter_eq_some_iff.mp ready).1
  exact ⟨List.mem_of_find?_eq_some first, by simpa using List.find?_some first⟩

theorem Sound.handOn (sound : Sound s) (ready : readyBatch s.batches = some batch) :
    Sound { s with batches := CallQueue.setPhase s.batches batch.ref .committing } ∧
      Holds { s with batches := CallQueue.setPhase s.batches batch.ref .committing } batch := by
  rcases readyBatch_spec ready with ⟨member, prepared⟩
  have holds : s.Holds batch := ⟨batch, member, rfl, rfl, by rw [prepared]; exact nofun⟩
  refine ⟨sound.setPhase holds nofun, { batch with phase := .committing }, ?_, rfl, rfl, nofun⟩
  exact List.mem_map.mpr ⟨batch, member, if_pos rfl⟩

theorem setPhase_ne_nil (ready : readyBatch batches = some batch) :
    CallQueue.setPhase batches batch.ref .committing ≠ [] := by
  intro none
  rw [setPhase, List.map_eq_nil_iff] at none
  rw [none] at ready
  cases ready

theorem of_startNextMeets {fuel : Nat} (ready : readyBatch s.batches = some batch)
    (inline : commitsInline config = true)
    (meets : startNextMeets config answers (fuel + 1) s = true) :
    resultMeets config (startNextMeets config answers fuel) (startNextCommit config answers fuel)
      answers (answers.commits batch.ref) batch
      { s with batches := CallQueue.setPhase s.batches batch.ref .committing } = true := by
  rw [startNextMeets, ready] at meets
  simpa [inline] using meets

theorem keeps_startNextCommit (config : Config) (answers : Answers) (fuel : Nat) :
    Keeps (startNextMeets config answers fuel) (startNextCommit config answers fuel) := by
  induction fuel with
  | zero => exact ⟨fun sound _ => sound, fun _ _ => id, fun _ _ => id, fun _ => id⟩
  | succ fuel induction =>
      constructor
      case sound =>
        intro s sound meets
        rw [startNextCommit]
        split
        · exact sound
        · next batch ready =>
            rcases sound.handOn ready with ⟨committing, holds⟩
            dsimp only
            split
            · next inline =>
                exact induction.result_sound committing holds (of_startNextMeets ready inline meets)
            · exact committing
      case pending =>
        intro s sound meets awake
        rw [startNextCommit]
        split
        · exact awake
        · next batch ready =>
            rcases sound.handOn ready with ⟨committing, holds⟩
            dsimp only
            split
            · next inline =>
                exact induction.result_pending committing holds
                  (of_startNextMeets ready inline meets)
            · exact fun none => absurd none (setPhase_ne_nil ready)
      case burst =>
        intro s sound meets awake
        rw [startNextCommit]
        split
        · exact awake
        · next batch ready =>
            rcases sound.handOn ready with ⟨committing, holds⟩
            dsimp only
            split
            · next inline =>
                exact induction.result_burst committing holds (of_startNextMeets ready inline meets)
            · exact fun _ => .inr (.inl (setPhase_ne_nil ready))
      case marker =>
        intro s _ awake
        rw [startNextCommit]
        split
        · exact awake
        · dsimp only
          split
          · exact result_marker _ _ awake
          · exact awake

end Ebb.Server.CallQueue
