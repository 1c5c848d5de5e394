import Ebb.Foundation.Machine
import Mathlib.Algebra.GroupWithZero.Nat

namespace Ebb.Sync

/-! The scheduler that decides when the outbox is flushed: its variables, the timers and
flushes it started, and the promises its callers hold. -/

/-! ## Outcomes -/

/-- An error of an `unreachable` outcome: one the submit threw, or one the scheduler makes. -/
inductive FlushError (ε : Type)
  | thrown (error : ε)
  | error (message : String)
  | causedError (message : String) (cause : FlushError ε)
deriving DecidableEq

/-- `reached` stands for `empty`, `accepted` and `partial`, which are terminal alike. -/
inductive FlushOutcome (ε ρ : Type)
  | unreachable (error : FlushError ε)
  | reached (result : ρ)
deriving DecidableEq

namespace FlushScheduler

/-- How the promise of a flush settles: with an outcome, or with a fault of the store. -/
inductive Ending (ε ρ : Type)
  | outcome (outcome : FlushOutcome ε ρ)
  | fault (error : ε)
deriving DecidableEq

/-- How the promise of a caller settles. -/
inductive Answer (ε ρ : Type)
  | flushed (flush : Nat) (ending : Ending ε ρ)
  | deferred (outcome : FlushOutcome ε ρ)
deriving DecidableEq

/-- What has happened, in order. A start keeps the gate as it was at that moment. -/
inductive Event (ε ρ : Type)
  | asked (promise : Nat)
  | shared (flush : Nat)
  | started (flush : Nat) (carried : List Nat) (ready stopped : Bool)
  | ended (flush : Nat) (ending : Ending ε ρ)
  | settled (promise : Nat) (answer : Answer ε ρ)
deriving DecidableEq

/-! ## State -/

structure Config where
  debounceMs : Nat
  initialMs : Nat
  maxMs : Nat

structure Timer where
  handle : Nat
  delayMs : Nat
deriving DecidableEq

/-- A flush of the outbox that has not settled: the promises it was started for, and the
entries that were pending then. -/
structure Flight where
  number : Nat
  batch : List Nat
  carried : List Nat
deriving DecidableEq

end FlushScheduler

open FlushScheduler in
/-- `timer` and `inFlight` are the scheduler's variables; `armed` and `running` are the timers
of the host and the flushes of the outbox themselves. -/
structure FlushScheduler (ε ρ : Type) where
  stopped : Bool
  ready : Bool
  timer : Option Nat
  inFlight : Option Nat
  waiters : List Nat
  attempt : Nat
  lastUnreachable : Option (FlushError ε)
  armed : List Timer
  running : List Flight
  /-- The pending entries of the outbox. One that becomes pending again gets a new number. -/
  pending : List Nat
  nextHandle : Nat
  nextFlush : Nat
  nextPromise : Nat
  nextEntry : Nat
  log : List (Event ε ρ)

namespace FlushScheduler

variable {ε ρ : Type}

def createFlushScheduler : FlushScheduler ε ρ where
  stopped := false
  ready := true
  timer := none
  inFlight := none
  waiters := []
  attempt := 0
  lastUnreachable := none
  armed := []
  running := []
  pending := []
  nextHandle := 0
  nextFlush := 0
  nextPromise := 0
  nextEntry := 0
  log := []

def clearTimer (s : FlushScheduler ε ρ) : FlushScheduler ε ρ :=
  match s.timer with
  | none => s
  | some handle =>
      { s with armed := s.armed.filter (·.handle ≠ handle), timer := none }

/-- `timer = timers.setTimeout(runFlush, delayMs)`. -/
def setTimer (delayMs : Nat) (s : FlushScheduler ε ρ) : FlushScheduler ε ρ :=
  { s with
    timer := some s.nextHandle
    armed := s.armed ++ [⟨s.nextHandle, delayMs⟩]
    nextHandle := s.nextHandle + 1 }

def backoffDelayMs (attempt initialMs maxMs : Nat) : Nat := min maxMs (initialMs * 2 ^ attempt)

def enqueueWaiter (s : FlushScheduler ε ρ) : FlushScheduler ε ρ :=
  { s with
    waiters := s.waiters ++ [s.nextPromise]
    nextPromise := s.nextPromise + 1
    log := s.log ++ [.asked s.nextPromise] }

/-- `Promise.resolve(outcome)`. -/
def resolved (outcome : FlushOutcome ε ρ) (s : FlushScheduler ε ρ) : FlushScheduler ε ρ :=
  { s with
    nextPromise := s.nextPromise + 1
    log := s.log ++ [.asked s.nextPromise, .settled s.nextPromise (.deferred outcome)] }

def stoppedOutcome : FlushOutcome ε ρ := .unreachable (.error "flush scheduler stopped")

def deferredOutcome (failed : FlushError ε) : FlushOutcome ε ρ :=
  .unreachable (.causedError "flush retry already scheduled" failed)

def gatedOutcome : FlushOutcome ε ρ :=
  .unreachable (.error "flush held until the catch-up checkpoint")

/-! ## Flushing -/

/-- The callers present are captured: one that comes later waits for the next flush. -/
def startFlush (s : FlushScheduler ε ρ) : FlushScheduler ε ρ :=
  { s with
    waiters := []
    inFlight := some s.nextFlush
    running := s.running ++ [⟨s.nextFlush, s.waiters, s.pending⟩]
    nextFlush := s.nextFlush + 1
    log := s.log ++ [.started s.nextFlush s.pending s.ready s.stopped] }

def runFlush (s : FlushScheduler ε ρ) : FlushScheduler ε ρ :=
  let s := s.clearTimer
  if s.stopped || s.inFlight.isSome then s else s.startFlush

def serveWaiters (config : Config) (s : FlushScheduler ε ρ) : FlushScheduler ε ρ :=
  if s.waiters ≠ [] then s.setTimer config.debounceMs else s

def afterSettled (config : Config) (outcome : FlushOutcome ε ρ) (s : FlushScheduler ε ρ) :
    FlushScheduler ε ρ :=
  if s.stopped then s
  else if !s.ready then s
  else
    let idle (s : FlushScheduler ε ρ) : FlushScheduler ε ρ :=
      serveWaiters config { s with attempt := 0, lastUnreachable := none }
    match outcome with
    | .unreachable error =>
        let s := { s with lastUnreachable := some error }
        if 0 < s.pending.length then
          let delay := backoffDelayMs s.attempt config.initialMs config.maxMs
          { s with attempt := s.attempt + 1 }.setTimer delay
        else idle s
    | .reached _ => idle s

/-- The flush has settled, and with it the promises it was started for. -/
def endFlush (flight : Flight) (ending : Ending ε ρ) (s : FlushScheduler ε ρ) :
    FlushScheduler ε ρ :=
  { s with
    running := s.running.filter (·.number ≠ flight.number)
    inFlight := none
    log := s.log ++ .ended flight.number ending ::
      flight.batch.map fun promise => .settled promise (.flushed flight.number ending) }

def settle (config : Config) (flight : Flight) (ending : Ending ε ρ) (s : FlushScheduler ε ρ) :
    FlushScheduler ε ρ :=
  let s := s.endFlush flight ending
  match ending with
  | .outcome outcome => s.afterSettled config outcome
  | .fault _ => if !s.stopped && s.ready then s.serveWaiters config else s

/-! ## Calls -/

def schedule (config : Config) (s : FlushScheduler ε ρ) : FlushScheduler ε ρ :=
  let queued :=
    let s := s.enqueueWaiter
    if s.inFlight.isNone && s.timer.isNone then s.setTimer config.debounceMs else s
  if s.stopped then s.resolved stoppedOutcome
  else if !s.ready then s.resolved gatedOutcome
  else if s.inFlight.isNone && s.timer.isSome then
    match s.lastUnreachable with
    | some failed => s.resolved (deferredOutcome failed)
    | none => queued
  else queued

def flushNow (s : FlushScheduler ε ρ) : FlushScheduler ε ρ :=
  if s.stopped then s.resolved stoppedOutcome
  else if !s.ready then s.resolved gatedOutcome
  else
    match s.inFlight with
    | some flush => { s with log := s.log ++ [.shared flush] }
    | none => s.clearTimer.enqueueWaiter.runFlush

def hold (s : FlushScheduler ε ρ) : FlushScheduler ε ρ :=
  if s.stopped || !s.ready then s else { s with ready := false }.clearTimer

/-- The marker is a waiter nobody holds, so what accumulated is flushed in any case. -/
def release (s : FlushScheduler ε ρ) : FlushScheduler ε ρ :=
  if s.stopped || s.ready then s
  else
    let s := { s with ready := true }.enqueueWaiter
    if s.inFlight.isNone then s.clearTimer.runFlush else s

def stop (s : FlushScheduler ε ρ) : FlushScheduler ε ρ :=
  if s.stopped then s
  else
    let s := { s with stopped := true }.clearTimer
    { s with
      waiters := []
      log := s.log ++ s.waiters.map fun promise => .settled promise (.deferred stoppedOutcome) }

/-! ## Runs -/

/-- The calls of the client, and what the host, the network and the outbox do. -/
inductive Input (ε ρ : Type)
  | schedule
  | flushNow
  | hold
  | release
  | stop
  | fire (handle : Nat)
  | settle (flush : Nat) (ending : Ending ε ρ)
  | enqueue
  | retire (entry : Nat)
deriving DecidableEq

def step (config : Config) (s : FlushScheduler ε ρ) : Input ε ρ → Option (FlushScheduler ε ρ)
  | .schedule => some (s.schedule config)
  | .flushNow => some s.flushNow
  | .hold => some s.hold
  | .release => some s.release
  | .stop => some s.stop
  | .fire handle =>
      if handle ∈ s.armed.map Timer.handle then
        some { s with armed := s.armed.filter (·.handle ≠ handle) }.runFlush
      else none
  | .settle flush ending =>
      match s.running.find? (·.number = flush) with
      | some flight => some (s.settle config flight ending)
      | none => none
  | .enqueue => some { s with pending := s.pending ++ [s.nextEntry], nextEntry := s.nextEntry + 1 }
  | .retire entry => some { s with pending := s.pending.filter (· ≠ entry) }

def machine (config : Config) : Machine (FlushScheduler ε ρ) (Input ε ρ) where
  initial := createFlushScheduler
  step := step config

end FlushScheduler

end Ebb.Sync
