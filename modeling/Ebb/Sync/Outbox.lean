import Ebb.Core.Action
import Ebb.Foundation.Machine
import Ebb.Foundation.StableSort

namespace Ebb.Sync

/-! The client's outbox, as `packages/client/src/sync/outbox.ts` runs it: the
buffered Actions in memory, their durable rows, and the calls that wait between
the two. A call runs until it awaits; a store operation takes effect where it is
issued, and the call goes on at a later event. -/

inductive OutboxStatus where
  | pending
  | acknowledged
  | error
  | conflicted
deriving DecidableEq

/-- One buffered Action. The conflict payload of a detection is opaque here. -/
structure OutboxEntry (V C : Type) where
  action : Action V
  status : OutboxStatus
  enqueuedAtHlc : HLCTimestamp
  basedOnGsn : Nat
  conflict : Option C

def OutboxEntry.id (entry : OutboxEntry V C) : String := entry.action.id

/-- What a store holds between sessions: each row under its Action id, with a
conflict payload only while it is conflicted. -/
structure StoredRows (V C : Type) where
  rows : OrderedMap String (OutboxEntry V C)
  keyed : ∀ row ∈ rows.entries, row.1 = row.2.id
  payload : ∀ row ∈ rows.entries, row.2.status ≠ .conflicted → row.2.conflict = none

/-! ## Calls in progress -/

/-- What a call does when its store operation has come back. -/
inductive Call (V C : Type) where
  | enqueuing (entry : OutboxEntry V C)
  | replacing (originalId : String) (next : OutboxEntry V C)
  | retrying (actionId : String)
  /-- `clearError` or `clearConflict`. -/
  | clearing (actionId : String)
  | matching (actionId : String)
  /-- The losers a detection has still to mark. -/
  | detecting (losers : List (String × C))

inductive Flush (V C : Type) where
  | submitting (batch : List (OutboxEntry V C))
  | storing (entry : OutboxEntry V C) (status : OutboxStatus) (rest : List (OutboxEntry V C))
      (rejected : List String)
  /-- The row was deleted again, or written again in its newer state. -/
  | repairing (rest : List (OutboxEntry V C)) (rejected : List String)

structure Outbox (V C : Type) where
  entries : List (OutboxEntry V C)
  rows : OrderedMap String (OutboxEntry V C)
  calls : OrderedMap Nat (Call V C)
  inFlight : Option (Flush V C)

inductive Event (V C : Type) where
  | enqueue (call : Nat) (action : Action V) (enqueuedAtHlc : HLCTimestamp) (basedOnGsn : Nat)
  | retryConflicted (call : Nat) (originalId : String) (action : Action V)
      (enqueuedAtHlc : HLCTimestamp) (basedOnGsn : Nat)
  | flush
  /-- The submit came back with the rejected ids, or failed. -/
  | submitted (response : Option (List String))
  | resumeFlush
  | retry (call : Nat) (actionId : String)
  | clearError (call : Nat) (actionId : String)
  | clearConflict (call : Nat) (actionId : String)
  | matchEcho (call : Nat) (action : Action V)
  /-- A detection that found these losers, each with the payload it will get. -/
  | detectConflicts (call : Nat) (losers : List (String × C))
  | resume (call : Nat)

/-- `entries.find` by Action id. -/
def entryOf (entries : List (OutboxEntry V C)) (actionId : String) : Option (OutboxEntry V C) :=
  entries.find? fun candidate => candidate.id == actionId

/-- `entries.find` by Action id among the entries of some statuses. -/
def entryIn (statuses : List OutboxStatus) (entries : List (OutboxEntry V C))
    (actionId : String) : Option (OutboxEntry V C) :=
  entries.find? fun candidate => candidate.id == actionId && decide (candidate.status ∈ statuses)

def removeEntry (actionId : String) (entries : List (OutboxEntry V C)) :
    List (OutboxEntry V C) :=
  entries.filter fun candidate => candidate.id ≠ actionId

def updateEntry (actionId : String) (change : OutboxEntry V C → OutboxEntry V C)
    (entries : List (OutboxEntry V C)) : List (OutboxEntry V C) :=
  entries.map fun candidate => if candidate.id = actionId then change candidate else candidate

def withStatus (status : OutboxStatus) (entry : OutboxEntry V C) : OutboxEntry V C :=
  { entry with status }

def asConflicted (conflict : C) (entry : OutboxEntry V C) : OutboxEntry V C :=
  { entry with status := .conflicted, conflict := some conflict }

namespace Outbox

/-! ## The operations -/

/-- Start a call whose first store operation leaves `rows`. -/
def begin (outbox : Outbox V C) (call : Nat) (begun : Call V C)
    (rows : OrderedMap String (OutboxEntry V C)) : Option (Outbox V C) :=
  if outbox.calls.contains call then none
  else some { outbox with rows, calls := outbox.calls.set call begun }

def newEntry (action : Action V) (enqueuedAtHlc : HLCTimestamp) (basedOnGsn : Nat) :
    OutboxEntry V C :=
  { action, status := .pending, enqueuedAtHlc, basedOnGsn, conflict := none }

/-- The row a flush writes for an entry of its batch. -/
def flushedRow (entry : OutboxEntry V C) (status : OutboxStatus) : OutboxEntry V C :=
  { entry with status, conflict := none }

def statusFor (rejected : List String) (entry : OutboxEntry V C) : OutboxStatus :=
  if entry.id ∈ rejected then .error else .acknowledged

/-- The flush's loop up to its next store write: entries that are no longer
pending are passed over. -/
def storeNext (outbox : Outbox V C) (rejected : List String) :
    List (OutboxEntry V C) → Outbox V C
  | [] => { outbox with inFlight := none }
  | entry :: rest =>
      match entryOf outbox.entries entry.id with
      | none => outbox.storeNext rejected rest
      | some before =>
          if before.status = .pending then
            let status := statusFor rejected entry
            { outbox with
              rows := outbox.rows.set entry.id (flushedRow entry status)
              inFlight := some (.storing entry status rest rejected) }
          else outbox.storeNext rejected rest

def flush (outbox : Outbox V C) : Outbox V C :=
  match outbox.inFlight with
  | some _ => outbox
  | none =>
      let batch := outbox.entries.filter fun entry => entry.status = .pending
      if batch.isEmpty then outbox
      else { outbox with inFlight := some (.submitting batch) }

def resumeFlush (outbox : Outbox V C) : Option (Outbox V C) :=
  match outbox.inFlight with
  | some (.storing entry status rest rejected) =>
      match entryOf outbox.entries entry.id with
      | none => some { outbox with
          rows := outbox.rows.erase entry.id
          inFlight := some (.repairing rest rejected) }
      | some after =>
          if after.status = .pending then
            some ({ outbox with
              entries := updateEntry entry.id (withStatus status) outbox.entries }.storeNext
                rejected rest)
          else some { outbox with
            rows := outbox.rows.set entry.id after
            inFlight := some (.repairing rest rejected) }
  | some (.repairing rest rejected) => some (outbox.storeNext rejected rest)
  | _ => none

def markConflicted (outbox : Outbox V C) (actionId : String) (conflict : C) : Outbox V C :=
  match entryOf outbox.entries actionId with
  | none => outbox
  | some entry => { outbox with
      entries := updateEntry actionId (asConflicted conflict) outbox.entries
      rows := outbox.rows.set actionId (asConflicted conflict entry) }

def resume (outbox : Outbox V C) (call : Nat) : Option (Outbox V C) :=
  let finished : Outbox V C := { outbox with calls := outbox.calls.erase call }
  match outbox.calls.get? call with
  | none => none
  | some (.enqueuing entry) => some { finished with entries := outbox.entries ++ [entry] }
  | some (.replacing originalId next) =>
      some { finished with entries := removeEntry originalId outbox.entries ++ [next] }
  | some (.retrying actionId) =>
      some { finished with
        entries := updateEntry actionId (withStatus .pending) outbox.entries }
  | some (.clearing actionId) =>
      some { finished with entries := removeEntry actionId outbox.entries }
  | some (.matching actionId) =>
      some { finished with entries := removeEntry actionId outbox.entries }
  | some (.detecting []) => some finished
  | some (.detecting ((actionId, conflict) :: rest)) =>
      some ({ outbox with calls := outbox.calls.set call (.detecting rest) }.markConflicted
        actionId conflict)

def clear (outbox : Outbox V C) (status : OutboxStatus) (call : Nat) (actionId : String) :
    Option (Outbox V C) :=
  match entryIn [status] outbox.entries actionId with
  | none => some outbox
  | some _ => outbox.begin call (.clearing actionId) (outbox.rows.erase actionId)

def step (outbox : Outbox V C) : Event V C → Option (Outbox V C)
  | .enqueue call action enqueuedAtHlc basedOnGsn =>
      let entry := newEntry action enqueuedAtHlc basedOnGsn
      outbox.begin call (.enqueuing entry) (outbox.rows.set action.id entry)
  | .retryConflicted call originalId action enqueuedAtHlc basedOnGsn =>
      match entryIn [.conflicted] outbox.entries originalId with
      | none => some outbox
      | some _ =>
          let next := newEntry action enqueuedAtHlc basedOnGsn
          outbox.begin call (.replacing originalId next)
            ((outbox.rows.erase originalId).set action.id next)
  | .flush => some outbox.flush
  | .submitted response =>
      match outbox.inFlight, response with
      | some (.submitting _), none => some { outbox with inFlight := none }
      | some (.submitting batch), some rejected => some (outbox.storeNext rejected batch)
      | _, _ => none
  | .resumeFlush => outbox.resumeFlush
  | .retry call actionId =>
      match entryIn [.error] outbox.entries actionId with
      | none => some outbox
      | some entry =>
          outbox.begin call (.retrying actionId)
            (outbox.rows.set actionId (withStatus .pending entry))
  | .clearError call actionId => outbox.clear .error call actionId
  | .clearConflict call actionId => outbox.clear .conflicted call actionId
  | .matchEcho call action =>
      if action.gsn = 0 then some outbox
      else match entryIn [.pending, .acknowledged] outbox.entries action.id with
      | none => some outbox
      | some _ => outbox.begin call (.matching action.id) (outbox.rows.erase action.id)
  | .detectConflicts call losers =>
      if losers.all fun loser =>
          (entryIn [.pending, .acknowledged] outbox.entries loser.1).isSome then
        if losers.isEmpty then some outbox
        else outbox.begin call (.detecting losers) outbox.rows
      else none
  | .resume call => outbox.resume call

def rehydrated (stored : StoredRows V C) : Outbox V C where
  entries := sortBy OutboxEntry.enqueuedAtHlc (stored.rows.entries.map Prod.snd)
  rows := stored.rows
  calls := .empty
  inFlight := none

def machine (stored : StoredRows V C) : Machine (Outbox V C) (Event V C) where
  initial := rehydrated stored
  step := step

end Outbox

end Ebb.Sync
