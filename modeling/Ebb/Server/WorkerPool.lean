import Ebb.Foundation.Machine
import Ebb.Foundation.OrderedMap

namespace Ebb.Server

/-! The functions worker pool: slots that hold a worker, the leases on them, the queue of
checkouts, and the messages and monitors between the pool, its callers and its workers. -/

namespace WorkerPool

/-! ## State -/

inductive Process where
  | worker (id : Nat)
  | caller (id : Nat)
deriving DecidableEq

/-- What a caller is handed: the slot's reference and the worker in it. -/
structure Lease where
  ref : Nat
  worker : Nat
deriving DecidableEq

inductive Status where
  | idle
  | busy
deriving DecidableEq

structure Row where
  ref : Nat
  worker : Nat
  monitor : Nat
  status : Status
  owner : Option Nat
  ownerMon : Option Nat
deriving DecidableEq

/-- A queued checkout. Its timer carries its reference. -/
structure Waiter where
  ref : Nat
  tag : Nat
  caller : Nat
  monitor : Nat
deriving DecidableEq

inductive Reply where
  | leased (lease : Lease)
  | saturated
deriving DecidableEq

/-- One `checkout` call, by the tag its reply goes to. -/
structure Checkout where
  tag : Nat
  caller : Nat
deriving DecidableEq

def Waiter.checkout (waiter : Waiter) : Checkout := { tag := waiter.tag, caller := waiter.caller }

structure Config where
  size : Nat
  queueLimit : Nat

end WorkerPool

structure WorkerPool where
  rows : OrderedMap Nat WorkerPool.Row
  byPid : OrderedMap Nat Nat
  idle : List Nat
  /-- The oldest waiter first. -/
  waiting : List WorkerPool.Waiter
  /-- The slots a start task runs for. -/
  pending : List Nat
  spawnFailures : Nat
  kills : Nat
  nextRef : Nat
  /-- The slots with a `:spawn` message that is queued or due. -/
  scheduled : List Nat
  /-- The timeouts that are due or queued. A cancelled timer may have fired before. -/
  timers : List Nat
  monitors : List (Nat × WorkerPool.Process)
  /-- The queued `:DOWN` messages. -/
  downs : List (Nat × WorkerPool.Process)
  dead : List WorkerPool.Process
  /-- The workers that were ever started. -/
  spawned : List Nat
  /-- The leases each caller was ever handed. -/
  granted : List (Nat × WorkerPool.Lease)
  /-- The leases that were not handed back. -/
  held : List (Nat × WorkerPool.Lease)
  checkouts : List WorkerPool.Checkout
  replies : List (WorkerPool.Checkout × WorkerPool.Reply)
  /-- The checkouts that left the queue with their caller. -/
  abandoned : List WorkerPool.Checkout

namespace WorkerPool

def initial (config : Config) : WorkerPool where
  rows := .empty
  byPid := .empty
  idle := []
  waiting := []
  pending := List.range config.size
  spawnFailures := 0
  kills := 0
  nextRef := config.size
  scheduled := []
  timers := []
  monitors := []
  downs := []
  dead := []
  spawned := []
  granted := []
  held := []
  checkouts := []
  replies := []
  abandoned := []

def alive (pool : WorkerPool) (process : Process) : Bool := process ∉ pool.dead

/-- `Process.monitor`: of a dead process the message comes at once. -/
def monitor (pool : WorkerPool) (process : Process) : WorkerPool :=
  if pool.alive process then
    { pool with
      nextRef := pool.nextRef + 1
      monitors := pool.monitors ++ [(pool.nextRef, process)] }
  else
    { pool with
      nextRef := pool.nextRef + 1
      downs := pool.downs ++ [(pool.nextRef, process)] }

/-- `Process.demonitor(ref, [:flush])`. -/
def demonitor (pool : WorkerPool) : Option Nat → WorkerPool
  | none => pool
  | some ref =>
      { pool with
        monitors := pool.monitors.filter fun entry => entry.1 ≠ ref
        downs := pool.downs.filter fun entry => entry.1 ≠ ref }

/-! ## Rows -/

def putRow (pool : WorkerPool) (row : Row) : WorkerPool :=
  { pool with
    rows := pool.rows.set row.ref row
    byPid := pool.byPid.set row.worker row.ref }

def markIdle (pool : WorkerPool) (row : Row) : WorkerPool :=
  { pool with
    rows := pool.rows.set row.ref { row with status := .idle, owner := none, ownerMon := none }
    byPid := pool.byPid.set row.worker row.ref
    idle := row.ref :: pool.idle.erase row.ref }

/-- The worker of a dropped row is closed or cleaned up by a task of its own. -/
def dropRow (pool : WorkerPool) (ref : Nat) : WorkerPool :=
  match pool.rows.get? ref with
  | none => pool
  | some row =>
      let pool := (pool.demonitor row.ownerMon).demonitor (some row.monitor)
      { pool with
        rows := pool.rows.erase ref
        byPid := pool.byPid.erase row.worker
        idle := pool.idle.erase ref
        kills := if row.status = .busy then pool.kills + 1 else pool.kills
        scheduled := pool.scheduled ++ [ref] }

def respawnAfterFailure (pool : WorkerPool) (ref : Nat) : WorkerPool :=
  { pool with
    spawnFailures := pool.spawnFailures + 1
    scheduled := pool.scheduled ++ [ref] }

def spawnSlot (pool : WorkerPool) (ref : Nat) : WorkerPool :=
  if ref ∈ pool.pending then pool else { pool with pending := pool.pending ++ [ref] }

def rowByMonitor (pool : WorkerPool) (ref : Nat) : Option Row :=
  (pool.rows.entries.map Prod.snd).find? fun row =>
    row.monitor == ref || row.ownerMon == some ref

/-! ## Checkouts -/

def popIdle (pool : WorkerPool) : List Nat → Option (Row × List Nat)
  | [] => none
  | ref :: rest =>
      match pool.rows.get? ref with
      | some row =>
          if row.status = .idle ∧ pool.alive (.worker row.worker) = true then some (row, rest)
          else pool.popIdle rest
      | none => pool.popIdle rest

def lease (pool : WorkerPool) (row : Row) (checkout : Checkout) : WorkerPool :=
  let owned := { row with
    status := Status.busy
    owner := some checkout.caller
    ownerMon := some pool.nextRef }
  let lease := { ref := row.ref, worker := row.worker : Lease }
  let pool := (pool.monitor (.caller checkout.caller)).putRow owned
  { pool with
    granted := pool.granted ++ [(checkout.caller, lease)]
    held := pool.held ++ [(checkout.caller, lease)]
    replies := pool.replies ++ [(checkout, .leased lease)] }

def reply (pool : WorkerPool) (checkout : Checkout) (reply : Reply) : WorkerPool :=
  { pool with replies := pool.replies ++ [(checkout, reply)] }

def queueCheckout (config : Config) (pool : WorkerPool) (checkout : Checkout) : WorkerPool :=
  if pool.waiting.length < config.queueLimit then
    let waiter : Waiter := {
      ref := pool.nextRef
      tag := checkout.tag
      caller := checkout.caller
      monitor := pool.nextRef + 1 }
    let pool := { pool with nextRef := pool.nextRef + 1 }.monitor (.caller checkout.caller)
    { pool with
      waiting := pool.waiting ++ [waiter]
      timers := pool.timers ++ [waiter.ref] }
  else pool.reply checkout .saturated

/-- One round of `serve_waiters`: a row and the oldest waiter leave together. -/
def serve (pool : WorkerPool) (row : Row) (idle : List Nat) (waiter : Waiter)
    (waiting : List Waiter) : WorkerPool :=
  { pool with idle, waiting }.demonitor (some waiter.monitor) |>.lease row waiter.checkout

/-- Without an idle worker, or without a waiter, the pool stays as it is. -/
def serveAll (pool : WorkerPool) : List Waiter → WorkerPool
  | [] => pool
  | waiter :: rest =>
      match pool.popIdle pool.idle with
      | none => pool
      | some (row, idle) => (pool.serve row idle waiter rest).serveAll rest

def serveWaiters (pool : WorkerPool) : WorkerPool := pool.serveAll pool.waiting

def takeWaiter (waiting : List Waiter) (selects : Waiter → Bool) : Option (Waiter × List Waiter) :=
  match waiting.filter selects with
  | [waiter] => some (waiter, waiting.filter fun other => !selects other)
  | _ => none

/-! ## Messages -/

def handleCheckout (config : Config) (pool : WorkerPool) (checkout : Checkout) : WorkerPool :=
  match pool.popIdle pool.idle with
  | some (row, idle) => { pool with idle }.lease row checkout
  | none => pool.queueCheckout config checkout

/-- The slot's row is found by the lease's reference alone. -/
def handleCheckin (pool : WorkerPool) (lease : Lease) : WorkerPool :=
  match pool.rows.get? lease.ref with
  | some row =>
      if row.status = .busy then
        if pool.alive (.worker row.worker) then
          ((pool.demonitor row.ownerMon).markIdle row).serveWaiters
        else pool.dropRow lease.ref
      else pool
  | none => pool

def handleDiscard (pool : WorkerPool) (lease : Lease) : WorkerPool := pool.dropRow lease.ref

def handleSpawnResult (pool : WorkerPool) (ref : Nat) (started : Option Nat) : WorkerPool :=
  let pool := { pool with pending := pool.pending.erase ref }
  match started with
  | some worker =>
      let row : Row := {
        ref
        worker
        monitor := pool.nextRef
        status := .idle
        owner := none
        ownerMon := none }
      { (pool.monitor (.worker worker)) with spawnFailures := 0 }.markIdle row |>.serveWaiters
  | none => pool.respawnAfterFailure ref

def handleCheckoutTimeout (pool : WorkerPool) (waitRef : Nat) : WorkerPool :=
  match takeWaiter pool.waiting fun waiter => waiter.ref == waitRef with
  | some (waiter, waiting) =>
      { pool.demonitor (some waiter.monitor) with waiting }.reply waiter.checkout .saturated
  | none => pool

def handleDown (pool : WorkerPool) (ref : Nat) (process : Process) : WorkerPool :=
  let slot := match process with
    | .worker worker => pool.byPid.get? worker
    | .caller _ => none
  match slot with
  | some slot => pool.dropRow slot
  | none =>
      match pool.rowByMonitor ref with
      | some row => pool.dropRow row.ref
      | none =>
          match takeWaiter pool.waiting fun waiter => waiter.monitor == ref with
          | some (waiter, waiting) =>
              { pool with waiting, abandoned := pool.abandoned ++ [waiter.checkout] }
          | none => pool

/-! ## Runs -/

inductive Event where
  | checkout (checkout : Checkout)
  | checkin (caller : Nat) (lease : Lease)
  | discard (caller : Nat) (lease : Lease)
  | spawnResult (ref : Nat) (started : Option Nat)
  | spawn (ref : Nat)
  | checkoutTimeout (waitRef : Nat)
  | down (ref : Nat) (process : Process)
  | dies (process : Process)
deriving DecidableEq

/-- The monitors of a process become its `:DOWN` messages. -/
def die (pool : WorkerPool) (process : Process) : WorkerPool :=
  { pool with
    dead := pool.dead ++ [process]
    monitors := pool.monitors.filter fun entry => entry.2 ≠ process
    downs := pool.downs ++ pool.monitors.filter fun entry => entry.2 = process }

/-- The lease goes back with the message, whatever the pool makes of it. -/
def giveBack (pool : WorkerPool) (caller : Nat) (lease : Lease) : WorkerPool :=
  { pool with held := pool.held.filter fun entry => entry ≠ (caller, lease) }

/-- A message occurs when it is there to be delivered: a lease is handed back by a caller it was
handed to, a tag and a started worker are new, and messages come in any order. -/
def step (config : Config) (pool : WorkerPool) : Event → Option WorkerPool
  | .checkout checkout =>
      if checkout.tag ∈ pool.checkouts.map Checkout.tag then none
      else some ({ pool with checkouts := pool.checkouts ++ [checkout] }.handleCheckout config checkout)
  | .checkin caller lease =>
      if (caller, lease) ∈ pool.granted then some ((pool.giveBack caller lease).handleCheckin lease)
      else none
  | .discard caller lease =>
      if (caller, lease) ∈ pool.granted then some ((pool.giveBack caller lease).handleDiscard lease)
      else none
  | .spawnResult ref started =>
      if ref ∈ pool.pending ∧ ∀ worker ∈ started, worker ∉ pool.spawned then
        some ({ pool with spawned := pool.spawned ++ started.toList }.handleSpawnResult ref started)
      else none
  | .spawn ref =>
      if ref ∈ pool.scheduled then
        some ({ pool with scheduled := pool.scheduled.erase ref }.spawnSlot ref)
      else none
  | .checkoutTimeout waitRef =>
      if waitRef ∈ pool.timers then
        some ({ pool with timers := pool.timers.erase waitRef }.handleCheckoutTimeout waitRef)
      else none
  | .down ref process =>
      if (ref, process) ∈ pool.downs then
        some ({ pool with downs := pool.downs.erase (ref, process) }.handleDown ref process)
      else none
  | .dies process => if pool.alive process then some (pool.die process) else none

def machine (config : Config) : Machine WorkerPool Event where
  initial := initial config
  step := step config

end WorkerPool

end Ebb.Server
