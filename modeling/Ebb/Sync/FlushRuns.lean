import Ebb.Sync.FlushScheduler

namespace Ebb.Sync.FlushScheduler

/-! What holds of the flush scheduler over whole runs: one flush at a time and none behind a
closed gate, every promise answered once, and nothing left without a timer. -/

variable {ε ρ : Type} {config : Config} {s next : FlushScheduler ε ρ}

/-! ## Timers and flights -/

/-- The variables of the scheduler say what the host and the outbox have of it, and a timer is
armed only where a flush may start. -/
structure Single (s : FlushScheduler ε ρ) : Prop where
  flights : s.running.map Flight.number = s.inFlight.toList
  timers : s.armed.map Timer.handle = s.timer.toList
  idle : s.timer ≠ none → s.ready = true ∧ s.stopped = false ∧ s.inFlight = none

def quiet (s : FlushScheduler ε ρ) : FlushScheduler ε ρ := { s with armed := [], timer := none }

theorem Single.clearTimer (single : Single s) : s.clearTimer = s.quiet := by
  have timers := single.timers
  cases set : s.timer with
  | none =>
      rw [set, Option.toList_none, List.map_eq_nil_iff] at timers
      cases s
      simp_all [FlushScheduler.clearTimer, quiet]
  | some handle =>
      rw [set, Option.toList_some] at timers
      have none : s.armed.filter (·.handle ≠ handle) = [] := by
        simp only [List.filter_eq_nil_iff]
        intro timer member
        have same : timer.handle ∈ [handle] := timers ▸ List.mem_map_of_mem member
        simpa using same
      simp only [FlushScheduler.clearTimer, set, quiet, none]

variable {flight : Flight} {log : List (Event ε ρ)} {promise : Nat} {outcome : FlushOutcome ε ρ}
  (promises : List Nat) (answer : Answer ε ρ)

theorem Single.running_eq (single : Single s) (member : flight ∈ s.running) :
    s.running = [flight] ∧ s.inFlight = some flight.number := by
  have flights := single.flights
  cases busy : s.inFlight with
  | none => simp_all
  | some number =>
      rw [busy, Option.toList_some, List.map_eq_singleton_iff] at flights
      obtain ⟨only, running, same⟩ := flights
      simp only [running, List.mem_singleton] at member
      subst member
      exact ⟨running, by rw [same]⟩

theorem Single.running_nil_iff (single : Single s) : s.running = [] ↔ s.inFlight = none := by
  rw [← List.map_eq_nil_iff (f := Flight.number), single.flights, Option.toList_eq_nil_iff]

/-! ## Moves -/

def IsDeferral (outcome : FlushOutcome ε ρ) : Prop :=
  outcome = stoppedOutcome ∨ outcome = gatedOutcome ∨ ∃ failed, outcome = deferredOutcome failed

def Ending.isUnreachable : Ending ε ρ → Prop
  | .outcome (.unreachable _) => True
  | _ => False

inductive Move (s : FlushScheduler ε ρ) : FlushScheduler ε ρ → Prop
  | kept : Move s s
  | deferred (outcome : FlushOutcome ε ρ) (deferral : IsDeferral outcome) :
      Move s (s.resolved outcome)
  | shared (flush : Nat) : Move s { s with log := s.log ++ [.shared flush] }
  | parked (busy : s.inFlight ≠ none ∨ s.timer ≠ none) : Move s s.enqueueWaiter
  | debounced (delayMs : Nat) (isReady : s.ready = true) (running : s.stopped = false)
      (idle : s.inFlight = none) (unarmed : s.timer = none) :
      Move s (s.enqueueWaiter.setTimer delayMs)
  | fired (isReady : s.ready = true) (running : s.stopped = false) (idle : s.inFlight = none) :
      Move s s.quiet.startFlush
  | flushed (running : s.stopped = false) (idle : s.inFlight = none) :
      Move s { s.quiet with ready := true }.enqueueWaiter.startFlush
  | reopened (busy : s.inFlight ≠ none) : Move s { s with ready := true }.enqueueWaiter
  | held : Move s { s.quiet with ready := false }
  | halted :
      Move s { s.quiet with
        stopped := true
        waiters := []
        log := s.log ++ s.waiters.map fun promise => .settled promise (.deferred stoppedOutcome) }
  | rearmed (flight : Flight) (ending : Ending ε ρ) (member : flight ∈ s.running) (attempt : Nat)
      (lastUnreachable : Option (FlushError ε)) (delayMs : Nat) (isReady : s.ready = true)
      (running : s.stopped = false) :
      Move s ({ s.endFlush flight ending with attempt, lastUnreachable }.setTimer delayMs)
  | rested (flight : Flight) (ending : Ending ε ρ) (member : flight ∈ s.running) (attempt : Nat)
      (lastUnreachable : Option (FlushError ε))
      (nothingLeft : s.ready = true → s.stopped = false →
        s.waiters = [] ∧ (ending.isUnreachable → s.pending = [])) :
      Move s { s.endFlush flight ending with attempt, lastUnreachable }
  | enqueued : Move s { s with pending := s.pending ++ [s.nextEntry], nextEntry := s.nextEntry + 1 }
  | retired (entry : Nat) : Move s { s with pending := s.pending.filter (· ≠ entry) }

theorem move_schedule (config : Config) (s : FlushScheduler ε ρ) : Move s (s.schedule config) := by
  have queued : s.stopped = false → s.ready = true → Move s
      (if s.enqueueWaiter.inFlight.isNone && s.enqueueWaiter.timer.isNone then
        s.enqueueWaiter.setTimer config.debounceMs else s.enqueueWaiter) := by
    intro running isReady
    split
    · next free =>
        simp only [enqueueWaiter, Bool.and_eq_true, Option.isNone_iff_eq_none] at free
        exact .debounced _ isReady running free.1 free.2
    · next busy =>
        simp only [enqueueWaiter, Bool.and_eq_true, Option.isNone_iff_eq_none, not_and_or] at busy
        exact .parked busy
  simp only [schedule]
  split
  · exact .deferred _ (.inl rfl)
  · next running =>
      have running := Bool.eq_false_iff.mpr running
      split
      · exact .deferred _ (.inr (.inl rfl))
      · next isReady =>
          have isReady : s.ready = true := by simpa using isReady
          split
          · split
            · next failed _ => exact .deferred _ (.inr (.inr ⟨failed, rfl⟩))
            · exact queued running isReady
          · exact queued running isReady

theorem move_flushNow (single : Single s) : Move s s.flushNow := by
  simp only [flushNow]
  split
  · exact .deferred _ (.inl rfl)
  · next running =>
      have running := Bool.eq_false_iff.mpr running
      split
      · exact .deferred _ (.inr (.inl rfl))
      · next isReady =>
          have isReady : s.ready = true := by simpa using isReady
          split
          · exact .shared _
          · next idle =>
              rw [single.clearTimer]
              have flushed := Move.flushed running idle
              simpa [runFlush, clearTimer, enqueueWaiter, quiet, running, idle, isReady] using flushed

theorem move_hold (single : Single s) : Move s s.hold := by
  simp only [hold]
  split
  · exact .kept
  · have quieted : { s with ready := false }.clearTimer = { s.clearTimer with ready := false } := by
      simp only [clearTimer]
      split <;> rfl
    rw [quieted, single.clearTimer]
    exact .held

theorem move_release (single : Single s) : Move s s.release := by
  simp only [release]
  split
  · exact .kept
  · next closed =>
      simp only [Bool.or_eq_true, not_or, Bool.not_eq_true] at closed
      split
      · next idle =>
          have idle : s.inFlight = none := by simpa [enqueueWaiter] using idle
          have quieted : { s with ready := true }.enqueueWaiter.clearTimer =
              { s.clearTimer with ready := true }.enqueueWaiter := by
            simp only [clearTimer, enqueueWaiter]
            split <;> rfl
          rw [quieted, single.clearTimer]
          have flushed := Move.flushed closed.1 idle
          simpa [runFlush, clearTimer, enqueueWaiter, quiet, closed.1, idle] using flushed
      · next busy => exact .reopened (by simpa [enqueueWaiter] using busy)

theorem move_stop (single : Single s) : Move s s.stop := by
  simp only [stop]
  split
  · exact .kept
  · have quieted : { s with stopped := true }.clearTimer = { s.clearTimer with stopped := true } := by
      simp only [clearTimer]
      split <;> rfl
    rw [quieted, single.clearTimer]
    exact .halted

theorem move_fire (single : Single s) {handle : Nat} (armed : handle ∈ s.armed.map Timer.handle) :
    Move s { s with armed := s.armed.filter (·.handle ≠ handle) }.runFlush := by
  have set : s.timer = some handle := by
    rw [single.timers, Option.mem_toList] at armed
    exact armed
  obtain ⟨isReady, running, idle⟩ := single.idle (by simp [set])
  have quieted : { s with armed := s.armed.filter (·.handle ≠ handle) }.clearTimer = s.quiet := by
    rw [← single.clearTimer]
    simp [clearTimer, set]
  have free : (s.quiet.stopped || s.quiet.inFlight.isSome) = false := by
    simp [quiet, running, idle]
  simp only [runFlush, quieted, free]
  exact .fired isReady running idle

theorem move_settle (config : Config) (ending : Ending ε ρ) (member : flight ∈ s.running)
    : Move s (s.settle config flight ending) := by
  have served : ∀ attempt lastUnreachable, s.ready = true → s.stopped = false →
      (ending.isUnreachable → s.pending = []) → Move s (serveWaiters config
        { s.endFlush flight ending with attempt, lastUnreachable }) := by
    intro attempt lastUnreachable isReady running retired
    simp only [serveWaiters]
    split
    · exact .rearmed flight ending member attempt lastUnreachable _ isReady running
    · next unwaited =>
        have unwaited : s.waiters = [] := by simpa [endFlush] using unwaited
        exact .rested flight ending member attempt lastUnreachable fun _ _ => ⟨unwaited, retired⟩
  have closed : ¬(s.ready = true ∧ s.stopped = false) → Move s (s.endFlush flight ending) :=
    fun shut => .rested flight ending member s.attempt s.lastUnreachable
      fun isReady running => absurd ⟨isReady, running⟩ shut
  cases ending with
  | fault error =>
      simp only [settle]
      split
      · next gate =>
          have gate : s.stopped = false ∧ s.ready = true := by simpa [endFlush] using gate
          exact served s.attempt s.lastUnreachable gate.2 gate.1 False.elim
      · next shut => exact closed (by simpa [endFlush, and_comm] using shut)
  | outcome outcome =>
      simp only [settle, afterSettled]
      split
      · next stopped =>
          have stopped : s.stopped = true := stopped
          exact closed (by simp [stopped])
      · next unstopped =>
          have running : s.stopped = false := Bool.eq_false_iff.mpr unstopped
          split
          · next shut =>
              have shut : s.ready = false := by simpa [endFlush] using shut
              exact closed (by simp [shut])
          · next isReady =>
              have opened : s.ready = true := by simpa [endFlush] using isReady
              cases outcome with
              | unreachable error =>
                  simp only
                  split
                  · exact .rearmed flight _ member _ _ _ opened running
                  · next empty =>
                      have empty : s.pending = [] := by simpa [endFlush] using empty
                      exact served 0 none opened running fun _ => empty
              | reached result => exact served 0 none opened running False.elim

theorem move_of_step (single : Single s) {input : Input ε ρ}
    (stepped : step config s input = some next) : Move s next := by
  cases input with
  | schedule =>
      cases stepped
      exact move_schedule config s
  | flushNow =>
      cases stepped
      exact move_flushNow single
  | hold =>
      cases stepped
      exact move_hold single
  | release =>
      cases stepped
      exact move_release single
  | stop =>
      cases stepped
      exact move_stop single
  | fire handle =>
      simp only [step] at stepped
      split at stepped
      · next armed =>
          cases stepped
          exact move_fire single armed
      · cases stepped
  | settle flush ending =>
      simp only [step] at stepped
      split at stepped
      · next flight found =>
          cases stepped
          exact move_settle config ending (List.mem_of_find?_eq_some found)
      · cases stepped
  | enqueue =>
      cases stepped
      exact .enqueued
  | retire entry =>
      cases stepped
      exact .retired entry

theorem Single.running_empty (single : Single s) (idle : s.inFlight = none) : s.running = [] :=
  single.running_nil_iff.mpr idle

theorem Single.armed_empty (single : Single s) (unarmed : s.timer = none) : s.armed = [] := by
  have timers := single.timers
  rw [unarmed, Option.toList_none, List.map_eq_nil_iff] at timers
  exact timers

theorem Single.unarmed (single : Single s) (busy : s.inFlight ≠ none) : s.timer = none := by
  by_contra set
  exact busy (single.idle set).2.2

theorem Single.move (single : Single s) (move : Move s next) : Single next := by
  cases move with
  | kept => exact single
  | deferred | shared | enqueued | retired => exact ⟨single.flights, single.timers, single.idle⟩
  | parked => exact ⟨single.flights, single.timers, single.idle⟩
  | debounced delayMs isReady running idle unarmed =>
      constructor
      · exact single.flights
      · simp [setTimer, enqueueWaiter, single.armed_empty unarmed]
      · exact fun _ => ⟨isReady, running, idle⟩
  | fired isReady running idle =>
      constructor
      · simp [startFlush, quiet, single.running_empty idle]
      · rfl
      · simp [startFlush, quiet]
  | flushed running idle =>
      constructor
      · simp [startFlush, enqueueWaiter, quiet, single.running_empty idle]
      · rfl
      · simp [startFlush, enqueueWaiter, quiet]
  | reopened busy =>
      constructor
      · exact single.flights
      · exact single.timers
      · simp [enqueueWaiter, single.unarmed busy]
  | held | halted =>
      constructor
      · exact single.flights
      · rfl
      · simp [quiet]
  | rearmed flight ending member attempt lastUnreachable delayMs isReady running =>
      have busy : s.inFlight ≠ none := by simp [(single.running_eq member).2]
      constructor
      · simp [setTimer, endFlush, (single.running_eq member).1]
      · simp [setTimer, endFlush, single.armed_empty (single.unarmed busy)]
      · exact fun _ => ⟨isReady, running, rfl⟩
  | rested flight ending member attempt lastUnreachable nothingLeft =>
      have busy : s.inFlight ≠ none := by simp [(single.running_eq member).2]
      constructor
      · simp [endFlush, (single.running_eq member).1]
      · exact single.timers
      · simp [endFlush, single.unarmed busy]

/-! ## The log -/

def Before (log : List (Event ε ρ)) (first second : Event ε ρ) : Prop :=
  ∃ before after, log = before ++ after ∧ first ∈ before ∧ second ∈ after

theorem Before.append {first second : Event ε ρ} (before : Before log first second)
    (more : List (Event ε ρ)) :
    Before (log ++ more) first second := by
  obtain ⟨start, rest, rfl, inStart, inRest⟩ := before
  exact ⟨start, rest ++ more, by simp, inStart, List.mem_append_left more inRest⟩

theorem before_snoc {first : Event ε ρ} (happened : first ∈ log) (second : Event ε ρ)
    : Before (log ++ [second]) first second :=
  ⟨log, [second], rfl, happened, List.mem_singleton_self second⟩

def askedIn (log : List (Event ε ρ)) : List Nat :=
  log.filterMap fun event => match event with
    | .asked promise => some promise
    | _ => none

def settledIn (log : List (Event ε ρ)) : List Nat :=
  log.filterMap fun event => match event with
    | .settled promise _ => some promise
    | _ => none

theorem mem_askedIn : promise ∈ askedIn log ↔ .asked promise ∈ log := by
  simp only [askedIn, List.mem_filterMap]
  constructor
  · rintro ⟨event, member, isAsked⟩
    split at isAsked
    · cases isAsked
      exact member
    · cases isAsked
  · exact fun member => ⟨_, member, rfl⟩

theorem mem_settledIn : promise ∈ settledIn log ↔ ∃ answer, .settled promise answer ∈ log := by
  simp only [settledIn, List.mem_filterMap]
  constructor
  · rintro ⟨event, member, isSettled⟩
    split at isSettled
    · next answer =>
        cases isSettled
        exact ⟨answer, member⟩
    · cases isSettled
  · exact fun ⟨_, member⟩ => ⟨_, member, rfl⟩

@[simp] theorem askedIn_append (log more : List (Event ε ρ)) :
    askedIn (log ++ more) = askedIn log ++ askedIn more := List.filterMap_append

@[simp] theorem settledIn_append (log more : List (Event ε ρ)) :
    settledIn (log ++ more) = settledIn log ++ settledIn more := List.filterMap_append

@[simp] theorem askedIn_settled :
    askedIn (promises.map fun promise => .settled promise answer) = [] := by
  simp [askedIn]

@[simp] theorem settledIn_settled :
    settledIn (promises.map fun promise => .settled promise answer) = promises := by
  rw [settledIn, List.filterMap_map]
  exact List.filterMap_some

/-! ## Promises -/

def waitingIn (s : FlushScheduler ε ρ) : List Nat := s.running.flatMap Flight.batch ++ s.waiters

/-- An answer comes from a flush that started after the promise was asked for, or is a
deferral. -/
def Fair (log : List (Event ε ρ)) (promise : Nat) : Answer ε ρ → Prop
  | .flushed flush ending =>
      .ended flush ending ∈ log ∧
        ∃ carried, Before log (.asked promise) (.started flush carried true false)
  | .deferred outcome => IsDeferral outcome

theorem Fair.append {answer : Answer ε ρ} (fair : Fair log promise answer) (more : List (Event ε ρ))
    :
    Fair (log ++ more) promise answer := by
  cases answer with
  | flushed flush ending =>
      obtain ⟨ended, carried, before⟩ := fair
      exact ⟨List.mem_append_left more ended, carried, before.append more⟩
  | deferred outcome => exact fair

/-- Every promise asked for waits or has one answer, and no flush starts behind the gate. -/
structure Accounts (s : FlushScheduler ε ρ) : Prop where
  asked : askedIn s.log = List.range s.nextPromise
  accounted : (settledIn s.log ++ s.waitingIn).Perm (List.range s.nextPromise)
  ordered : ∀ flight ∈ s.running, ∀ promise ∈ flight.batch,
    Before s.log (.asked promise) (.started flight.number flight.carried true false)
  gate : ∀ flush carried ready stopped, .started flush carried ready stopped ∈ s.log →
    ready = true ∧ stopped = false
  fair : ∀ promise answer, .settled promise answer ∈ s.log → Fair s.log promise answer

section

variable (accounts : Accounts s)
include accounts

theorem Accounts.of_eq (running : next.running = s.running) (waiters : next.waiters = s.waiters)
    (nextPromise : next.nextPromise = s.nextPromise) (log : next.log = s.log) : Accounts next := by
  constructor
  · rw [log, nextPromise, accounts.asked]
  · simpa only [waitingIn, log, running, waiters, nextPromise] using accounts.accounted
  · simpa only [running, log] using accounts.ordered
  · simpa only [log] using accounts.gate
  · simpa only [log] using accounts.fair

theorem Accounts.asked_of_waiting (waiting : promise ∈ s.waitingIn) : .asked promise ∈ s.log := by
  have listed : promise ∈ settledIn s.log ++ s.waitingIn := List.mem_append_right _ waiting
  rw [accounts.accounted.mem_iff, ← accounts.asked, mem_askedIn] at listed
  exact listed

theorem Accounts.resolved (deferral : IsDeferral outcome) : Accounts (s.resolved outcome) := by
  have settles : settledIn ([.asked s.nextPromise, .settled s.nextPromise (.deferred outcome)] :
      List (Event ε ρ)) = [s.nextPromise] := rfl
  constructor
  case asked =>
    simp only [FlushScheduler.resolved, askedIn_append, accounts.asked, List.range_succ]
    rfl
  case accounted =>
    simp only [FlushScheduler.resolved, settledIn_append, settles, List.range_succ]
    have moved : (settledIn s.log ++ [s.nextPromise] ++ s.waitingIn).Perm
        (settledIn s.log ++ s.waitingIn ++ [s.nextPromise]) := by
      simp only [List.append_assoc]
      exact List.Perm.append_left _ List.perm_append_comm
    exact moved.trans (accounts.accounted.append_right _)
  case ordered =>
    intro flight member promise inBatch
    exact (accounts.ordered flight member promise inBatch).append _
  case gate =>
    intro flush carried ready stopped started
    simp only [FlushScheduler.resolved, List.mem_append, List.mem_cons, reduceCtorEq, List.not_mem_nil,
      or_false] at started
    exact accounts.gate flush carried ready stopped started
  case fair =>
    intro promise answer settled
    simp only [FlushScheduler.resolved, List.mem_append, List.mem_cons, reduceCtorEq, List.not_mem_nil,
      or_false, false_or] at settled
    cases settled with
    | inl old => exact (accounts.fair promise answer old).append _
    | inr new =>
        cases new
        exact deferral

theorem Accounts.enqueueWaiter : Accounts s.enqueueWaiter := by
  constructor
  case asked =>
    simp only [FlushScheduler.enqueueWaiter, askedIn_append, accounts.asked, List.range_succ]
    rfl
  case accounted =>
    have settles : settledIn ([.asked s.nextPromise] : List (Event ε ρ)) = [] := rfl
    simp only [FlushScheduler.enqueueWaiter, settledIn_append, settles, waitingIn, List.range_succ,
      List.append_nil]
    rw [← List.append_assoc, ← List.append_assoc]
    refine List.Perm.append_right _ ?_
    rw [List.append_assoc]
    exact accounts.accounted
  case ordered =>
    intro flight member promise inBatch
    exact (accounts.ordered flight member promise inBatch).append _
  case gate =>
    intro flush carried ready stopped started
    simp only [FlushScheduler.enqueueWaiter, List.mem_append, List.mem_cons, reduceCtorEq,
      List.not_mem_nil, or_false] at started
    exact accounts.gate flush carried ready stopped started
  case fair =>
    intro promise answer settled
    simp only [FlushScheduler.enqueueWaiter, List.mem_append, List.mem_cons, reduceCtorEq,
      List.not_mem_nil, or_false] at settled
    exact (accounts.fair promise answer settled).append _

theorem Accounts.startFlush (isReady : s.ready = true) (running : s.stopped = false)
    (idle : s.running = []) : Accounts s.startFlush := by
  constructor
  case asked =>
    simp only [FlushScheduler.startFlush, askedIn_append, accounts.asked]
    exact List.append_nil _
  case accounted =>
    have settles : settledIn ([.started s.nextFlush s.pending s.ready s.stopped] :
      List (Event ε ρ)) = [] := rfl
    have accounted := accounts.accounted
    simp only [waitingIn, idle] at accounted
    simpa [FlushScheduler.startFlush, settles, waitingIn, idle] using accounted
  case ordered =>
    intro flight member promise inBatch
    simp only [FlushScheduler.startFlush, idle, List.nil_append, List.mem_singleton] at member
    subst member
    have asked := accounts.asked_of_waiting (List.mem_append_right _ inBatch)
    simpa only [FlushScheduler.startFlush, isReady, running] using before_snoc asked _
  case gate =>
    intro flush carried ready stopped started
    simp only [FlushScheduler.startFlush, List.mem_append, List.mem_singleton] at started
    cases started with
    | inl old => exact accounts.gate flush carried ready stopped old
    | inr new =>
        cases new
        exact ⟨isReady, running⟩
  case fair =>
    intro promise answer settled
    simp only [FlushScheduler.startFlush, List.mem_append, List.mem_singleton, reduceCtorEq,
      or_false] at settled
    exact (accounts.fair promise answer settled).append _

theorem Accounts.endFlush (only : s.running = [flight]) (ending : Ending ε ρ)
    : Accounts (s.endFlush flight ending) := by
  constructor
  case asked =>
    have asks : askedIn (.ended flight.number ending ::
        flight.batch.map fun promise => .settled promise (.flushed flight.number ending)) = [] :=
      askedIn_settled flight.batch _
    simp only [FlushScheduler.endFlush, askedIn_append, asks, List.append_nil, accounts.asked]
  case accounted =>
    have settles : settledIn (.ended flight.number ending ::
        flight.batch.map fun promise => .settled promise (.flushed flight.number ending)) =
          flight.batch := settledIn_settled flight.batch _
    have accounted := accounts.accounted
    simp only [waitingIn, only] at accounted
    simpa [FlushScheduler.endFlush, settles, waitingIn, only] using accounted
  case ordered => simp [FlushScheduler.endFlush, only]
  case gate =>
    intro flush carried ready stopped started
    simp only [FlushScheduler.endFlush, List.mem_append, List.mem_cons, reduceCtorEq, List.mem_map,
      and_false, exists_false, or_false] at started
    exact accounts.gate flush carried ready stopped started
  case fair =>
    intro promise answer settled
    simp only [FlushScheduler.endFlush, List.mem_append, List.mem_cons, reduceCtorEq, List.mem_map,
      false_or] at settled
    cases settled with
    | inl old => exact (accounts.fair promise answer old).append _
    | inr new =>
        obtain ⟨_, inBatch, same⟩ := new
        cases same
        have before := accounts.ordered flight (by simp [only]) promise inBatch
        exact ⟨by simp [FlushScheduler.endFlush], flight.carried, before.append _⟩

theorem Accounts.settleWaiters (deferral : IsDeferral outcome) :
    Accounts { s with
      waiters := []
      log := s.log ++ s.waiters.map fun promise => .settled promise (.deferred outcome) } := by
  constructor
  case asked => simp only [askedIn_append, askedIn_settled, List.append_nil, accounts.asked]
  case accounted =>
    have accounted := accounts.accounted
    simp only [waitingIn] at accounted
    simp only [waitingIn, settledIn_append, settledIn_settled, List.append_nil]
    refine List.Perm.trans ?_ accounted
    rw [List.append_assoc]
    exact List.Perm.append_left _ List.perm_append_comm
  case ordered =>
    intro flight member promise inBatch
    exact (accounts.ordered flight member promise inBatch).append _
  case gate =>
    intro flush carried ready stopped started
    simp only [List.mem_append, List.mem_map, reduceCtorEq, and_false, exists_false,
      or_false] at started
    exact accounts.gate flush carried ready stopped started
  case fair =>
    intro promise answer settled
    simp only [List.mem_append, List.mem_map] at settled
    cases settled with
    | inl old => exact (accounts.fair promise answer old).append _
    | inr new =>
        obtain ⟨waiter, _, same⟩ := new
        cases same
        exact deferral

theorem Accounts.share (flush : Nat) : Accounts { s with log := s.log ++ [.shared flush] } := by
  have asks : askedIn ([.shared flush] : List (Event ε ρ)) = [] := rfl
  have settles : settledIn ([.shared flush] : List (Event ε ρ)) = [] := rfl
  constructor
  · simp only [askedIn_append, asks, List.append_nil, accounts.asked]
  · simpa only [settledIn_append, settles, List.append_nil, waitingIn] using accounts.accounted
  · exact fun flight member promise inBatch => (accounts.ordered flight member promise inBatch).append _
  · simpa using accounts.gate
  · intro promise answer settled
    simp only [List.mem_append, List.mem_singleton, reduceCtorEq, or_false] at settled
    exact (accounts.fair promise answer settled).append _

theorem Accounts.move (single : Single s) (move : Move s next) : Accounts next := by
  cases move with
  | kept => exact accounts
  | deferred outcome deferral => exact accounts.resolved deferral
  | shared flush => exact accounts.share flush
  | parked => exact accounts.enqueueWaiter
  | debounced => exact accounts.enqueueWaiter.of_eq rfl rfl rfl rfl
  | fired isReady running idle =>
      have quieted : Accounts s.quiet := accounts.of_eq rfl rfl rfl rfl
      exact quieted.startFlush isReady running (single.running_empty idle)
  | flushed running idle =>
      have opened : Accounts { s.quiet with ready := true } := accounts.of_eq rfl rfl rfl rfl
      exact opened.enqueueWaiter.startFlush rfl running (single.running_empty idle)
  | reopened =>
      have opened : Accounts { s with ready := true } := accounts.of_eq rfl rfl rfl rfl
      exact opened.enqueueWaiter
  | held => exact accounts.of_eq rfl rfl rfl rfl
  | halted => exact (accounts.settleWaiters (.inl rfl)).of_eq rfl rfl rfl rfl
  | rearmed flight ending member =>
      exact (accounts.endFlush (single.running_eq member).1 ending).of_eq rfl rfl rfl rfl
  | rested flight ending member =>
      exact (accounts.endFlush (single.running_eq member).1 ending).of_eq rfl rfl rfl rfl
  | enqueued | retired => exact accounts.of_eq rfl rfl rfl rfl

end

/-- Callers wait only while a timer or a flush will serve them, or the gate is closed. -/
def Served (s : FlushScheduler ε ρ) : Prop :=
  s.ready = true → s.stopped = false → s.inFlight = none → s.timer = none → s.waiters = []

theorem Served.move (served : Served s) (move : Move s next) : Served next := by
  cases move with
  | kept => exact served
  | deferred | shared | enqueued | retired => exact served
  | parked busy =>
      intro _ _ idle unarmed
      exact absurd busy (by simp_all [enqueueWaiter])
  | debounced =>
      intro _ _ _ unarmed
      simp [setTimer] at unarmed
  | fired | flushed =>
      intro _ _ idle
      simp [startFlush] at idle
  | reopened busy =>
      intro _ _ idle
      exact absurd idle busy
  | held =>
      intro isReady
      simp at isReady
  | halted =>
      intro _ running
      simp at running
  | rearmed =>
      intro _ _ _ unarmed
      simp [setTimer] at unarmed
  | rested flight ending member attempt lastUnreachable nothingLeft =>
      intro isReady running _ _
      exact (nothingLeft isReady running).1

/-! ## Entries -/

def startsIn (log : List (Event ε ρ)) : List (Nat × List Nat) :=
  log.filterMap fun event => match event with
    | .started flush carried _ _ => some (flush, carried)
    | _ => none

def endsIn (log : List (Event ε ρ)) : List (Nat × Ending ε ρ) :=
  log.filterMap fun event => match event with
    | .ended flush ending => some (flush, ending)
    | _ => none

@[simp] theorem startsIn_append (log more : List (Event ε ρ)) :
    startsIn (log ++ more) = startsIn log ++ startsIn more := List.filterMap_append

@[simp] theorem endsIn_append (log more : List (Event ε ρ)) :
    endsIn (log ++ more) = endsIn log ++ endsIn more := List.filterMap_append

@[simp] theorem startsIn_settled :
    startsIn (promises.map fun promise => .settled promise answer) = [] := by
  simp [startsIn]

@[simp] theorem endsIn_settled :
    endsIn (promises.map fun promise => .settled promise answer) = [] := by
  simp [endsIn]

def Carried (log : List (Event ε ρ)) (flush entry : Nat) : Prop :=
  ∃ carried, (flush, carried) ∈ startsIn log ∧ entry ∈ carried

def Unreached (log : List (Event ε ρ)) (flush entry : Nat) : Prop :=
  Carried log flush entry ∧ ∃ error, (flush, .outcome (.unreachable error)) ∈ endsIn log

/-- A later flush of the entry ended in another way. -/
def EndedSince (log : List (Event ε ρ)) (flush entry : Nat) : Prop :=
  ∃ later ending, flush < later ∧ Carried log later entry ∧ ¬ending.isUnreachable ∧
    (later, ending) ∈ endsIn log

/-- The flush in flight is the latest, and carries what is pending since an earlier one. -/
structure Entries (s : FlushScheduler ε ρ) : Prop where
  numbered : ∀ entry ∈ s.pending, entry < s.nextEntry
  started : ∀ start ∈ startsIn s.log, start.1 < s.nextFlush ∧ ∀ entry ∈ start.2, entry < s.nextEntry
  ended : ∀ finish ∈ endsIn s.log, finish.1 < s.nextFlush
  logged : ∀ flight ∈ s.running, (flight.number, flight.carried) ∈ startsIn s.log
  latest : ∀ flight ∈ s.running, ∀ finish ∈ endsIn s.log, finish.1 < flight.number
  holds : ∀ flight ∈ s.running, ∀ flush entry, Carried s.log flush entry → entry ∈ s.pending →
    entry ∈ flight.carried

theorem Entries.of_eq (entries : Entries s) (pending : next.pending = s.pending)
    (running : next.running = s.running) (nextFlush : next.nextFlush = s.nextFlush)
    (nextEntry : next.nextEntry = s.nextEntry) (starts : startsIn next.log = startsIn s.log)
    (ends : endsIn next.log = endsIn s.log) : Entries next := by
  constructor
  · simpa only [pending, nextEntry] using entries.numbered
  · simpa only [starts, nextFlush, nextEntry] using entries.started
  · simpa only [ends, nextFlush] using entries.ended
  · simpa only [running, starts] using entries.logged
  · simpa only [running, ends] using entries.latest
  · simpa only [running, Carried, starts, pending] using entries.holds

theorem Entries.startFlush (entries : Entries s) (idle : s.running = []) :
    Entries s.startFlush := by
  have starts : startsIn s.startFlush.log = startsIn s.log ++ [(s.nextFlush, s.pending)] :=
    startsIn_append ..
  have ends : endsIn s.startFlush.log = endsIn s.log :=
    (endsIn_append ..).trans (List.append_nil _)
  have running : s.startFlush.running = [⟨s.nextFlush, s.waiters, s.pending⟩] := by
    simp [FlushScheduler.startFlush, idle]
  constructor
  case numbered => exact entries.numbered
  case started =>
    intro start member
    rw [starts, List.mem_append, List.mem_singleton] at member
    cases member with
    | inl old =>
        obtain ⟨before, below⟩ := entries.started start old
        exact ⟨Nat.lt_succ_of_lt before, below⟩
    | inr new =>
        subst new
        exact ⟨Nat.lt_succ_self _, entries.numbered⟩
  case ended =>
    intro finish member
    rw [ends] at member
    exact Nat.lt_succ_of_lt (entries.ended finish member)
  case logged => simp [running, starts]
  case latest =>
    intro flight member finish finished
    rw [running, List.mem_singleton] at member
    rw [ends] at finished
    subst member
    exact entries.ended finish finished
  case holds =>
    intro flight member flush entry _ pending
    rw [running, List.mem_singleton] at member
    subst member
    exact pending

theorem startsIn_endFlush (s : FlushScheduler ε ρ) (flight : Flight) (ending : Ending ε ρ) :
    startsIn (s.endFlush flight ending).log = startsIn s.log := by
  have none : startsIn (.ended flight.number ending ::
      flight.batch.map fun promise => .settled promise (.flushed flight.number ending)) = [] :=
    startsIn_settled flight.batch _
  simp only [FlushScheduler.endFlush, startsIn_append, none, List.append_nil]

theorem endsIn_endFlush (s : FlushScheduler ε ρ) (flight : Flight) (ending : Ending ε ρ) :
    endsIn (s.endFlush flight ending).log = endsIn s.log ++ [(flight.number, ending)] := by
  have one : endsIn (.ended flight.number ending ::
      flight.batch.map fun promise => .settled promise (.flushed flight.number ending)) =
        [(flight.number, ending)] :=
    congrArg ((flight.number, ending) :: ·) (endsIn_settled flight.batch _)
  simp only [FlushScheduler.endFlush, endsIn_append, one]

theorem Entries.endFlush (entries : Entries s) (only : s.running = [flight]) (ending : Ending ε ρ)
    : Entries (s.endFlush flight ending) := by
  have running : (s.endFlush flight ending).running = [] := by
    simp [FlushScheduler.endFlush, only]
  constructor
  case numbered => exact entries.numbered
  case started =>
    rw [startsIn_endFlush]
    exact entries.started
  case ended =>
    intro finish member
    rw [endsIn_endFlush, List.mem_append, List.mem_singleton] at member
    cases member with
    | inl old => exact entries.ended finish old
    | inr new =>
        subst new
        exact (entries.started _ (entries.logged flight (by simp [only]))).1
  all_goals simp [running]

theorem Entries.move (entries : Entries s) (single : Single s) (move : Move s next) :
    Entries next := by
  have queued : ∀ t : FlushScheduler ε ρ, Entries t → Entries t.enqueueWaiter := by
    intro t entries
    refine entries.of_eq rfl rfl rfl rfl ?_ ?_
    · exact (startsIn_append ..).trans (List.append_nil _)
    · exact (endsIn_append ..).trans (List.append_nil _)
  cases move with
  | kept => exact entries
  | deferred | shared =>
      refine entries.of_eq rfl rfl rfl rfl ?_ ?_
      · exact (startsIn_append ..).trans (List.append_nil _)
      · exact (endsIn_append ..).trans (List.append_nil _)
  | parked => exact queued s entries
  | debounced => exact (queued s entries).of_eq rfl rfl rfl rfl rfl rfl
  | fired isReady running idle =>
      have quieted : Entries s.quiet := entries.of_eq rfl rfl rfl rfl rfl rfl
      exact quieted.startFlush (single.running_empty idle)
  | flushed running idle =>
      have opened : Entries { s.quiet with ready := true } := entries.of_eq rfl rfl rfl rfl rfl rfl
      exact (queued _ opened).startFlush (single.running_empty idle)
  | reopened => exact queued _ (entries.of_eq rfl rfl rfl rfl rfl rfl)
  | held => exact entries.of_eq rfl rfl rfl rfl rfl rfl
  | halted =>
      refine entries.of_eq rfl rfl rfl rfl ?_ ?_
      · simp
      · simp
  | rearmed flight ending member =>
      exact (entries.endFlush (single.running_eq member).1 ending).of_eq rfl rfl rfl rfl rfl rfl
  | rested flight ending member =>
      exact (entries.endFlush (single.running_eq member).1 ending).of_eq rfl rfl rfl rfl rfl rfl
  | enqueued =>
      constructor
      · intro entry member
        simp only [List.mem_append, List.mem_singleton] at member
        cases member with
        | inl old => exact Nat.lt_succ_of_lt (entries.numbered entry old)
        | inr new => exact new ▸ Nat.lt_succ_self _
      · intro start member
        obtain ⟨before, below⟩ := entries.started start member
        exact ⟨before, fun entry inside => Nat.lt_succ_of_lt (below entry inside)⟩
      · exact entries.ended
      · exact entries.logged
      · exact entries.latest
      · intro flight member flush entry carried pending
        simp only [List.mem_append, List.mem_singleton] at pending
        cases pending with
        | inl old => exact entries.holds flight member flush entry carried old
        | inr new =>
            obtain ⟨captured, started, inside⟩ := carried
            have := (entries.started _ started).2 entry inside
            omega
  | retired gone =>
      constructor
      · intro entry member
        exact entries.numbered entry (List.mem_filter.mp member).1
      · exact entries.started
      · exact entries.ended
      · exact entries.logged
      · exact entries.latest
      · intro flight member flush entry carried pending
        exact entries.holds flight member flush entry carried (List.mem_filter.mp pending).1

/-- A pending entry that came back has a retry to come, or a later flush of it ended. -/
def Retried (s : FlushScheduler ε ρ) : Prop :=
  s.ready = true → s.stopped = false → s.inFlight = none → s.timer = none →
    ∀ entry ∈ s.pending, ∀ flush, Unreached s.log flush entry → EndedSince s.log flush entry

theorem retried_congr (retried : Retried s) (isReady : next.ready = s.ready)
    (stopped : next.stopped = s.stopped) (inFlight : next.inFlight = s.inFlight)
    (timer : next.timer = s.timer) (pending : ∀ entry ∈ next.pending, ∀ flush,
      Carried s.log flush entry → entry ∈ s.pending)
    (starts : startsIn next.log = startsIn s.log) (ends : endsIn next.log = endsIn s.log) :
    Retried next := by
  intro opened running idle unarmed entry member flush unreached
  rw [isReady] at opened
  rw [stopped] at running
  rw [inFlight] at idle
  rw [timer] at unarmed
  simp only [Unreached, EndedSince, Carried, starts, ends] at unreached ⊢
  exact retried opened running idle unarmed entry (pending entry member flush unreached.1) flush
    unreached

theorem Retried.move (retried : Retried s) (entries : Entries s) (move : Move s next) :
    Retried next := by
  cases move with
  | kept => exact retried
  | deferred | shared =>
      refine retried_congr retried rfl rfl rfl rfl (fun _ member _ _ => member) ?_ ?_
      · exact (startsIn_append ..).trans (List.append_nil _)
      · exact (endsIn_append ..).trans (List.append_nil _)
  | parked busy =>
      intro _ _ idle unarmed
      exact absurd busy (by simp_all [enqueueWaiter])
  | debounced | rearmed =>
      intro _ _ _ unarmed
      simp [setTimer] at unarmed
  | fired | flushed =>
      intro _ _ idle
      simp [startFlush] at idle
  | reopened busy =>
      intro _ _ idle
      exact absurd idle busy
  | held =>
      intro isReady
      simp at isReady
  | halted =>
      intro _ running
      simp at running
  | rested flight ending member attempt lastUnreachable nothingLeft =>
      intro isReady running _ _ entry pending flush unreached
      obtain ⟨_, retry⟩ := nothingLeft isReady running
      have pending : entry ∈ s.pending := pending
      have reached : ¬ending.isUnreachable := by
        intro unreachable
        simp [retry unreachable] at pending
      obtain ⟨⟨carried, started, inside⟩, error, ended⟩ := unreached
      simp only [startsIn_endFlush] at started
      simp only [endsIn_endFlush, List.mem_append, List.mem_singleton] at ended
      cases ended with
      | inl old =>
          have captured := entries.holds flight member flush entry ⟨carried, started, inside⟩ pending
          refine ⟨flight.number, ending, entries.latest flight member _ old,
            ⟨flight.carried, ?_, captured⟩, reached, ?_⟩
          · simp only [startsIn_endFlush]
            exact entries.logged flight member
          · simp [endsIn_endFlush]
      | inr new =>
          cases new
          exact absurd trivial reached
  | enqueued =>
      refine retried_congr retried rfl rfl rfl rfl ?_ rfl rfl
      intro entry member flush carried
      simp only [List.mem_append, List.mem_singleton] at member
      cases member with
      | inl old => exact old
      | inr new =>
          obtain ⟨captured, started, inside⟩ := carried
          have := (entries.started _ started).2 entry inside
          omega
  | retired gone =>
      refine retried_congr retried rfl rfl rfl rfl ?_ rfl rfl
      exact fun entry member _ _ => (List.mem_filter.mp member).1

/-! ## Runs -/

structure Invariant (s : FlushScheduler ε ρ) : Prop where
  single : Single s
  accounts : Accounts s
  served : Served s
  entries : Entries s
  retried : Retried s

theorem invariant_create : Invariant (createFlushScheduler : FlushScheduler ε ρ) where
  single := ⟨rfl, rfl, fun set => absurd rfl set⟩
  accounts := by
    constructor
    case asked => rfl
    case accounted => exact .refl _
    all_goals simp [createFlushScheduler]
  served _ _ _ _ := rfl
  entries := by
    constructor
    all_goals simp [createFlushScheduler, startsIn, endsIn]
  retried := by simp [Retried, createFlushScheduler]

theorem Invariant.step (invariant : Invariant s) {input : Input ε ρ}
    (stepped : step config s input = some next) : Invariant next := by
  have move := move_of_step invariant.single stepped
  exact {
    single := invariant.single.move move
    accounts := invariant.accounts.move invariant.single move
    served := invariant.served.move move
    entries := invariant.entries.move invariant.single move
    retried := invariant.retried.move invariant.entries move }

theorem invariant_of_run {inputs : List (Input ε ρ)}
    (reached : (machine config).run createFlushScheduler inputs = some s) : Invariant s := by
  have general := @Machine.run_induct _ _ (machine config)
    (fun (_ : List (Input ε ρ)) (s : FlushScheduler ε ρ) => Invariant s) createFlushScheduler
  exact general invariant_create (fun _ _ _ _ _ invariant stepped => invariant.step stepped) reached

/-- Open, with no flush in flight and no timer armed. -/
structure AtRest (s : FlushScheduler ε ρ) : Prop where
  isReady : s.ready = true
  notStopped : s.stopped = false
  idle : s.running = []
  unarmed : s.armed = []

/-- What the scheduler owes its callers in a state. `left` says which entries may be left. -/
structure Orderly (left : List (Event ε ρ) → Nat → Nat → Prop) (s : FlushScheduler ε ρ) :
    Prop where
  exclusive : s.running.length ≤ 1
  gated : ∀ flush carried ready stopped, .started flush carried ready stopped ∈ s.log →
    ready = true ∧ stopped = false
  once : ∀ promise, (settledIn s.log).count promise ≤ 1
  fair : ∀ promise answer, .settled promise answer ∈ s.log → Fair s.log promise answer
  noneWaits : AtRest s → ∀ promise, .asked promise ∈ s.log →
    ∃ answer, .settled promise answer ∈ s.log
  noneLeft : AtRest s → ∀ entry ∈ s.pending, ∀ flush, Unreached s.log flush entry →
    left s.log flush entry

theorem Invariant.rest (invariant : Invariant s) (rest : AtRest s) :
    s.inFlight = none ∧ s.timer = none := by
  have timers := invariant.single.timers
  rw [rest.unarmed, List.map_nil] at timers
  exact ⟨invariant.single.running_nil_iff.mp rest.idle, Option.toList_eq_nil_iff.mp timers.symm⟩

theorem orderly_of_run (config : Config) (inputs : List (Input ε ρ))
    (reached : (machine config).run createFlushScheduler inputs = some s) :
    Orderly EndedSince s := by
  have invariant := invariant_of_run reached
  have accounts := invariant.accounts
  constructor
  case exclusive =>
    have flights := congrArg List.length invariant.single.flights
    rw [List.length_map] at flights
    rw [flights]
    cases s.inFlight <;> simp
  case gated => exact accounts.gate
  case once =>
    intro promise
    have distinct : (settledIn s.log ++ s.waitingIn).Nodup :=
      accounts.accounted.nodup_iff.mpr List.nodup_range
    exact List.nodup_iff_count.mp (List.nodup_append.mp distinct).1 promise
  case fair => exact accounts.fair
  case noneWaits =>
    intro rest promise asked
    obtain ⟨idle, unarmed⟩ := invariant.rest rest
    have nobody : s.waitingIn = [] := by
      simp [waitingIn, rest.idle, invariant.served rest.isReady rest.notStopped idle unarmed]
    rw [← mem_askedIn, accounts.asked, ← accounts.accounted.mem_iff, nobody, List.append_nil,
      mem_settledIn] at asked
    exact asked
  case noneLeft =>
    intro rest
    obtain ⟨idle, unarmed⟩ := invariant.rest rest
    exact invariant.retried rest.isReady rest.notStopped idle unarmed

/-- A later flush brought the entry to the server. -/
def ReachedSince (log : List (Event ε ρ)) (flush entry : Nat) : Prop :=
  ∃ later result, flush < later ∧ Carried log later entry ∧
    (later, .outcome (.reached result)) ∈ endsIn log

/-- The retry of an entry rejects, and nothing retries it again. -/
def faultedRetry : List (Input Unit Unit) :=
  [.enqueue, .schedule, .fire 0, .settle 0 (.outcome (.unreachable (.thrown ()))), .fire 1,
    .settle 1 (.fault ())]

def faultedRetryEnd : FlushScheduler Unit Unit where
  stopped := false
  ready := true
  timer := none
  inFlight := none
  waiters := []
  attempt := 1
  lastUnreachable := some (.thrown ())
  armed := []
  running := []
  pending := [0]
  nextHandle := 2
  nextFlush := 2
  nextPromise := 1
  nextEntry := 1
  log :=
    [.asked 0, .started 0 [0] true false, .ended 0 (.outcome (.unreachable (.thrown ()))),
      .settled 0 (.flushed 0 (.outcome (.unreachable (.thrown ())))),
      .started 1 [0] true false, .ended 1 (.fault ())]

theorem faultedRetry_left :
    (machine ⟨10, 1000, 60000⟩).run createFlushScheduler faultedRetry = some faultedRetryEnd ∧
      ¬Orderly ReachedSince faultedRetryEnd := by
  refine ⟨rfl, fun orderly => ?_⟩
  have unreached : Unreached faultedRetryEnd.log 0 0 := by
    refine ⟨⟨[0], ?_, ?_⟩, .thrown (), ?_⟩
    all_goals simp [faultedRetryEnd, startsIn, endsIn]
  obtain ⟨later, result, _, _, reached⟩ :=
    orderly.noneLeft ⟨rfl, rfl, rfl, rfl⟩ 0 (by decide) 0 unreached
  simp [faultedRetryEnd, endsIn] at reached

theorem orderly_of_run_faultedRetry :
    (machine ⟨10, 1000, 60000⟩).run createFlushScheduler faultedRetry = some faultedRetryEnd ∧
      Orderly EndedSince faultedRetryEnd :=
  ⟨rfl, orderly_of_run ⟨10, 1000, 60000⟩ faultedRetry rfl⟩

end Ebb.Sync.FlushScheduler
