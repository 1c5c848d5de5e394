import Ebb.Foundation.Machine
import Mathlib.Logic.Function.Basic
import Mathlib.Data.List.Nodup

namespace Ebb.Sync.LiveSubscriptions

/-! Who is subscribed is kept in the Router (`fan_out_router.ex`), in one process for each group
(`group_server.ex`) and in the registry these processes are found through. What the Router sends a
GroupServer arrives in the order it was sent. A DOWN message comes from elsewhere, so it may be
taken at any point after the exit. -/

abbrev ConnectionPid := Nat

/-- What the Router sends a GroupServer. A call carries the reference its reply is known by. -/
inductive GroupMessage where
  | addSubscriber (ref : Nat) (connection : ConnectionPid)
  | removeSubscriber (connection : ConnectionPid)
  | pushActions (frames : Nat)
deriving DecidableEq

structure GroupServer where
  subscribers : List ConnectionPid
  /-- One entry for each monitor. -/
  monitors : List ConnectionPid
  mailbox : List GroupMessage

namespace GroupServer

def init : GroupServer where
  subscribers := []
  monitors := []
  mailbox := []

def addSubscriber (server : GroupServer) (connection : ConnectionPid) : GroupServer :=
  { server with
    subscribers := server.subscribers.insert connection
    monitors := connection :: server.monitors }

/-- A GroupServer stops when its last subscriber leaves. -/
def removeSubscriber (server : GroupServer) (connection : ConnectionPid) : Option GroupServer :=
  let newSubscribers := server.subscribers.erase connection
  if newSubscribers.length = 0 then none else some { server with subscribers := newSubscribers }

def send (server : GroupServer) (message : GroupMessage) : GroupServer :=
  { server with mailbox := server.mailbox ++ [message] }

end GroupServer

/-! ## The Router -/

structure Router where
  subscriptions : ConnectionPid → Option (List String)
  monitors : List ConnectionPid
  actorConnections : String → Option (List ConnectionPid)
  connectionActors : ConnectionPid → Option String

namespace Router

def init : Router where
  subscriptions := fun _ => none
  monitors := []
  actorConnections := fun _ => none
  connectionActors := fun _ => none

def dropActorConnection (actorConnections : String → Option (List ConnectionPid))
    (actorId : String) (connection : ConnectionPid) : String → Option (List ConnectionPid) :=
  match actorConnections actorId with
  | none => actorConnections
  | some pids =>
      let remaining := pids.erase connection
      Function.update actorConnections actorId
        (if remaining.length = 0 then none else some remaining)

def forgetActorConnection (router : Router) (connection : ConnectionPid) : Router :=
  match router.connectionActors connection with
  | none => router
  | some actorId => { router with
      connectionActors := Function.update router.connectionActors connection none
      actorConnections := dropActorConnection router.actorConnections actorId connection }

def putActorConnection (router : Router) (connection : ConnectionPid) (actorId : String) :
    Router :=
  let router := router.forgetActorConnection connection
  { router with
    connectionActors := Function.update router.connectionActors connection (some actorId)
    actorConnections := Function.update router.actorConnections actorId
      (some (((router.actorConnections actorId).getD []).insert connection)) }

def forgetSubscriber (router : Router) (connection : ConnectionPid) : Router :=
  let router := router.forgetActorConnection connection
  { router with
    subscriptions := Function.update router.subscriptions connection none
    monitors := router.monitors.erase connection }

/-- What the Router keeps once every group has added the connection. -/
def putSubscriber (router : Router) (groupIds : List String) (connection : ConnectionPid)
    (actorId : String) : Router :=
  let subscriptions := Function.update router.subscriptions connection <| some <|
    match router.subscriptions connection with
    | none => groupIds
    | some existing => (existing ++ groupIds).eraseDups
  let monitors := router.monitors.insert connection
  { router.putActorConnection connection actorId with subscriptions, monitors }

def Lists (router : Router) (connection : ConnectionPid) (actorId : String) : Prop :=
  router.connectionActors connection = some actorId ∧
    ∃ pids, router.actorConnections actorId = some pids ∧ connection ∈ pids

variable {actorId : String} {connection other : ConnectionPid}

theorem mem_dropActorConnection {actorConnections : String → Option (List ConnectionPid)}
    {pids : List ConnectionPid} (listed : actorConnections actorId = some pids)
    (member : connection ∈ pids) (different : connection ≠ other) (otherActor : String) :
    ∃ left, dropActorConnection actorConnections otherActor other actorId = some left ∧
      connection ∈ left := by
  have kept : connection ∈ pids.erase other := (List.mem_erase_of_ne different).mpr member
  unfold dropActorConnection
  cases found : actorConnections otherActor with
  | none => exact ⟨pids, listed, member⟩
  | some others =>
      by_cases same : actorId = otherActor
      · subst same
        cases listed.symm.trans found
        exact ⟨pids.erase other, (Function.update_self _ _ _).trans
          (if_neg (Nat.ne_of_gt (List.length_pos_of_mem kept))), kept⟩
      · exact ⟨pids, (Function.update_of_ne same _ _).trans listed, member⟩

theorem Lists.forgetActorConnection {router : Router} (lists : router.Lists connection actorId)
    (different : connection ≠ other) :
    (router.forgetActorConnection other).Lists connection actorId := by
  rcases lists with ⟨actor, pids, listed, member⟩
  unfold Router.forgetActorConnection
  cases router.connectionActors other with
  | none => exact ⟨actor, pids, listed, member⟩
  | some otherActor =>
      exact ⟨(Function.update_of_ne different _ _).trans actor,
        mem_dropActorConnection listed member different otherActor⟩

theorem Lists.putActorConnection {router : Router} {otherActor : String}
    (lists : router.Lists connection actorId) (different : connection ≠ other) :
    (router.putActorConnection other otherActor).Lists connection actorId := by
  rcases lists.forgetActorConnection different with ⟨actor, pids, listed, member⟩
  refine ⟨(Function.update_of_ne different _ _).trans actor, ?_⟩
  by_cases same : actorId = otherActor
  · subst same
    refine ⟨_, Function.update_self _ _ _, ?_⟩
    rw [listed]
    exact List.mem_insert_of_mem member
  · exact ⟨pids, (Function.update_of_ne same _ _).trans listed, member⟩

theorem lists_putActorConnection (router : Router) (connection : ConnectionPid)
    (actorId : String) : (router.putActorConnection connection actorId).Lists connection actorId :=
  ⟨Function.update_self _ _ _, _, Function.update_self _ _ _, List.mem_insert_self⟩

end Router

/-- Where the Router is with the first group of a subscribe that remains. -/
inductive Progress where
  | next
  /-- The supervisor has handed it the GroupServer. -/
  | handed
  /-- It waits for the reply to its call. -/
  | waiting (ref : Nat)
deriving DecidableEq

structure Subscribing where
  groupIds : List String
  connection : ConnectionPid
  actorId : String
  remaining : List String
  progress : Progress

def Subscribing.reply (call : Subscribing) (ref : Nat) : Subscribing :=
  if call.progress = .waiting ref then
    { call with remaining := call.remaining.tail, progress := .next }
  else call

/-! ## The processes together -/

structure Callers where
  /-- The connections whose subscribe has returned, alive and not unsubscribed, with their groups
  and their actor. -/
  live : List (ConnectionPid × List String × String)
  /-- The dispatches to the groups of these connections since. -/
  owed : List (ConnectionPid × String × Nat)
  /-- A subscribe has failed on a GroupServer that stopped. -/
  failed : Bool

namespace Callers

def subscribed (callers : Callers) (call : Subscribing) : Callers :=
  let existing := (callers.live.filter fun entry => entry.1 = call.connection).flatMap
    fun entry => entry.2.1
  { callers with
    live := (call.connection, existing ++ call.groupIds, call.actorId) ::
      callers.live.filter fun entry => entry.1 ≠ call.connection }

def gone (callers : Callers) (connection : ConnectionPid) : Callers :=
  { callers with
    live := callers.live.filter fun entry => entry.1 ≠ connection
    owed := callers.owed.filter fun entry => entry.1 ≠ connection }

def dispatched (callers : Callers) (groupId : String) (frames : Nat) : Callers :=
  { callers with
    owed := callers.owed ++ (callers.live.filter fun entry => groupId ∈ entry.2.1).map fun entry =>
      (entry.1, groupId, frames) }

end Callers

structure System where
  router : Router
  handling : Option Subscribing
  /-- The registry. A GroupServer is in it as long as it runs. -/
  servers : String → Option GroupServer
  exited : List ConnectionPid
  nextRef : Nat
  nextFrames : Nat
  delivered : List (ConnectionPid × Nat)
  callers : Callers

inductive SystemEvent where
  | subscribe (groupIds : List String) (connection : ConnectionPid) (actorId : String)
  /-- The Router goes on with the subscribe it is handling. -/
  | advance
  | unsubscribe (connection : ConnectionPid)
  /-- A released range pushes to a group. -/
  | dispatch (groupId : String)
  | routerDown (connection : ConnectionPid)
  /-- A GroupServer takes a message of the Router's. -/
  | serve (groupId : String)
  | serverDown (groupId : String) (connection : ConnectionPid)
  | exit (connection : ConnectionPid)
  /-- The Router crashes and is started again. -/
  | crash

/-- A cast to the registered GroupServer, if there is one. -/
def castTo (message : GroupMessage) (servers : String → Option GroupServer) (groupId : String) :
    String → Option GroupServer :=
  match servers groupId with
  | none => servers
  | some server => Function.update servers groupId (some (server.send message))

namespace System

def start : System where
  router := Router.init
  handling := none
  servers := fun _ => none
  exited := []
  nextRef := 0
  nextFrames := 0
  delivered := []
  callers := { live := [], owed := [], failed := false }

def crash (system : System) : System :=
  { system with router := Router.init, handling := none }

/-- The GroupServer that was handed out has stopped: the call exits, and the Router with it. -/
def failCall (system : System) : System :=
  { system.crash with callers := { system.callers with failed := true } }

def startChild (system : System) (groupId : String) : String → Option GroupServer :=
  match system.servers groupId with
  | none => Function.update system.servers groupId (some GroupServer.init)
  | some _ => system.servers

def finishSubscribe (system : System) (call : Subscribing) : System :=
  { system with
    router := system.router.putSubscriber call.groupIds call.connection call.actorId
    handling := none
    callers := if call.connection ∈ system.exited then system.callers
      else system.callers.subscribed call }

def advance (system : System) : Option System :=
  match system.handling with
  | none => none
  | some call =>
      match call.remaining with
      | [] => some (system.finishSubscribe call)
      | groupId :: _ =>
          match call.progress, system.servers groupId with
          | .next, _ => some { system with
              servers := system.startChild groupId
              handling := some { call with progress := .handed } }
          | .handed, none => some system.failCall
          | .handed, some server => some { system with
              servers := Function.update system.servers groupId
                (some (server.send (.addSubscriber system.nextRef call.connection)))
              nextRef := system.nextRef + 1
              handling := some { call with progress := .waiting system.nextRef } }
          | .waiting _, none => some system.failCall
          | .waiting _, some _ => none

def handle (system : System) (groupId : String) (server : GroupServer) :
    GroupMessage → System
  | .addSubscriber ref connection => { system with
      servers := Function.update system.servers groupId (some (server.addSubscriber connection))
      handling := system.handling.map fun call => call.reply ref }
  | .removeSubscriber connection => { system with
      servers := Function.update system.servers groupId (server.removeSubscriber connection) }
  | .pushActions frames => { system with
      servers := Function.update system.servers groupId (some server)
      delivered := system.delivered ++ server.subscribers.map fun connection =>
        (connection, frames) }

def serve (system : System) (groupId : String) : Option System :=
  match system.servers groupId with
  | none => none
  | some server =>
      match server.mailbox with
      | [] => none
      | message :: rest => some (system.handle groupId { server with mailbox := rest } message)

def serverDown (system : System) (groupId : String) (connection : ConnectionPid) :
    Option System :=
  match system.servers groupId with
  | none => none
  | some server =>
      if connection ∈ system.exited ∧ connection ∈ server.monitors then
        some { system with
          servers := Function.update system.servers groupId
            ({ server with monitors := server.monitors.erase connection }.removeSubscriber
              connection) }
      else none

def unsubscribe (system : System) (connection : ConnectionPid) : System :=
  { system with
    servers := ((system.router.subscriptions connection).getD []).foldl
      (castTo (.removeSubscriber connection)) system.servers
    router := system.router.forgetSubscriber connection
    callers := system.callers.gone connection }

def dispatch (system : System) (groupId : String) : System :=
  { system with
    servers := castTo (.pushActions system.nextFrames) system.servers groupId
    nextFrames := system.nextFrames + 1
    callers := system.callers.dispatched groupId system.nextFrames }

def step (system : System) : SystemEvent → Option System
  | .subscribe groupIds connection actorId =>
      if system.handling.isNone then
        some { system with
          handling := some
            { groupIds, connection, actorId, remaining := groupIds, progress := .next } }
      else none
  | .advance => system.advance
  | .unsubscribe connection =>
      if system.handling.isNone then some (system.unsubscribe connection) else none
  | .dispatch groupId =>
      if system.handling.isNone then some (system.dispatch groupId) else none
  | .routerDown connection =>
      if system.handling.isNone ∧ connection ∈ system.exited ∧
          connection ∈ system.router.monitors then
        some { system with router := system.router.forgetSubscriber connection }
      else none
  | .serve groupId => system.serve groupId
  | .serverDown groupId connection => system.serverDown groupId connection
  | .exit connection => some { system with
      exited := connection :: system.exited
      callers := system.callers.gone connection }
  | .crash => some system.crash

def machine : Machine System SystemEvent where
  initial := start
  step := step

/-! ## No subscription is lost -/

def pending (servers : String → Option GroupServer) (groupId : String) (frames : Nat) : Nat :=
  (servers groupId).elim 0 fun server => server.mailbox.count (.pushActions frames)

/-- Every live connection is a subscriber of the registered GroupServer of each of its groups and
is listed under its actor, every dispatch to one of its groups reaches it exactly once, and no
subscribe has failed. -/
structure Connected (system : System) : Prop where
  subscribed : ∀ connection groupIds actorId,
    (connection, groupIds, actorId) ∈ system.callers.live → ∀ groupId ∈ groupIds,
      ∃ server, system.servers groupId = some server ∧ connection ∈ server.subscribers
  listed : ∀ connection groupIds actorId,
    (connection, groupIds, actorId) ∈ system.callers.live →
      ∃ pids, system.router.actorConnections actorId = some pids ∧ connection ∈ pids
  once : ∀ connection groupId frames, (connection, groupId, frames) ∈ system.callers.owed →
    system.delivered.count (connection, frames) + pending system.servers groupId frames = 1
  accepted : system.callers.failed = false

/-- A subscribe has been handed the GroupServer of a group. -/
def Handed (system : System) (groupId : String) : Prop :=
  ∃ call ∈ system.handling, call.progress ≠ .next ∧ call.remaining.head? = some groupId

/-- Another subscriber stays when a connection leaves. -/
def Stays (server : GroupServer) (connection : ConnectionPid) : Prop :=
  ∃ other ∈ server.subscribers, other ≠ connection

def StaysAfter (server : GroupServer) : GroupMessage → Prop
  | .removeSubscriber connection => Stays server connection
  | _ => True

/-- The Router crashes only while no connection is live, and no GroupServer loses its last
subscriber while a subscribe has been handed it. -/
def StepMeets (system : System) : SystemEvent → Prop
  | .crash => system.callers.live = []
  | .serve groupId => system.Handed groupId → ∀ server ∈ system.servers groupId,
      ∀ message ∈ server.mailbox.head?, StaysAfter server message
  | .serverDown groupId connection => system.Handed groupId →
      ∀ server ∈ system.servers groupId, Stays server connection
  | _ => True

instance (system : System) (groupId : String) : Decidable (system.Handed groupId) :=
  inferInstanceAs (Decidable (∃ call ∈ system.handling,
    call.progress ≠ .next ∧ call.remaining.head? = some groupId))

instance (server : GroupServer) (connection : ConnectionPid) :
    Decidable (Stays server connection) :=
  inferInstanceAs (Decidable (∃ other ∈ server.subscribers, other ≠ connection))

instance (server : GroupServer) : ∀ message, Decidable (StaysAfter server message)
  | .addSubscriber _ _ => .isTrue trivial
  | .removeSubscriber connection => inferInstanceAs (Decidable (Stays server connection))
  | .pushActions _ => .isTrue trivial

instance (system : System) : ∀ event, Decidable (system.StepMeets event)
  | .crash => inferInstanceAs (Decidable (system.callers.live = []))
  | .serve groupId => inferInstanceAs (Decidable (system.Handed groupId →
      ∀ server ∈ system.servers groupId, ∀ message ∈ server.mailbox.head?,
        StaysAfter server message))
  | .serverDown groupId connection => inferInstanceAs (Decidable (system.Handed groupId →
      ∀ server ∈ system.servers groupId, Stays server connection))
  | .subscribe _ _ _ => .isTrue trivial
  | .advance => .isTrue trivial
  | .unsubscribe _ => .isTrue trivial
  | .dispatch _ => .isTrue trivial
  | .routerDown _ => .isTrue trivial
  | .exit _ => .isTrue trivial

/-! ## What a step leaves of a GroupServer -/

/-- A connection is a subscriber of a group and nothing on its way takes it out. -/
def Holds (servers : String → Option GroupServer) (groupId : String)
    (connection : ConnectionPid) : Prop :=
  ∃ server, servers groupId = some server ∧ connection ∈ server.subscribers ∧
    .removeSubscriber connection ∉ server.mailbox

variable {servers : String → Option GroupServer} {groupId changed : String}
  {connection : ConnectionPid} {server : GroupServer} {next : Option GroupServer} {system : System}
  {callers : Callers} {entry : ConnectionPid × List String × String}
  {delivered : List (ConnectionPid × Nat)} {nextFrames frames nextRef : Nat}
  {message : GroupMessage} {live : List (ConnectionPid × List String × String)} {call : Subscribing}
  {rest : List GroupMessage}

theorem Holds.update {after : Option GroupServer} (holds : Holds servers groupId connection)
    (running : servers changed = some server)
    (keeps : connection ∈ server.subscribers → .removeSubscriber connection ∉ server.mailbox →
      ∃ next, after = some next ∧ connection ∈ next.subscribers ∧
      .removeSubscriber connection ∉ next.mailbox) :
    Holds (Function.update servers changed after) groupId connection := by
  rcases holds with ⟨there, found, member, unremoved⟩
  by_cases same : groupId = changed
  · subst same
    cases found.symm.trans running
    rcases keeps member unremoved with ⟨next, rfl, still, clean⟩
    exact ⟨next, Function.update_self _ _ _, still, clean⟩
  · exact ⟨there, (Function.update_of_ne same _ _).trans found, member, unremoved⟩

theorem removeSubscriber_keeps (server : GroupServer) {other : ConnectionPid}
    (member : connection ∈ server.subscribers) (different : connection ≠ other) :
    ∃ next, server.removeSubscriber other = some next ∧ connection ∈ next.subscribers ∧
      next.mailbox = server.mailbox := by
  have kept : connection ∈ server.subscribers.erase other :=
    (List.mem_erase_of_ne different).mpr member
  refine ⟨{ server with subscribers := server.subscribers.erase other }, ?_, kept, rfl⟩
  exact if_neg (Nat.ne_of_gt (List.length_pos_of_mem kept))

theorem removeSubscriber_some {next : GroupServer}
    (runs : server.removeSubscriber connection = some next) :
    next = { server with subscribers := server.subscribers.erase connection } := by
  by_cases last : (server.subscribers.erase connection).length = 0
  · cases (if_pos last).symm.trans runs
  · exact (Option.some.inj ((if_neg last).symm.trans runs)).symm

theorem all_update {property : GroupServer → Prop}
    (all : ∀ groupId server, servers groupId = some server → property server)
    (holds : ∀ server, next = some server → property server) :
    ∀ groupId server, Function.update servers changed next groupId = some server →
      property server := by
  intro groupId server found
  by_cases same : groupId = changed
  · subst same
    rw [Function.update_self] at found
    exact holds server found
  · rw [Function.update_of_ne same] at found
    exact all groupId server found

/-! ## The invariant -/

/-- A message was sent before the next reference and the next dispatch. -/
def Before (nextRef nextFrames : Nat) : GroupMessage → Prop
  | .addSubscriber ref _ => ref < nextRef
  | .removeSubscriber _ => True
  | .pushActions frames => frames < nextFrames

structure Sound (nextRef nextFrames : Nat) (server : GroupServer) : Prop where
  nodup : server.subscribers.Nodup
  sent : ∀ message ∈ server.mailbox, Before nextRef nextFrames message

/-- A dispatch is at a GroupServer or has reached the connection. -/
structure Owes (live : List (ConnectionPid × List String × String))
    (servers : String → Option GroupServer) (delivered : List (ConnectionPid × Nat))
    (nextFrames : Nat) (connection : ConnectionPid) (groupId : String) (frames : Nat) : Prop where
  live : ∃ entry ∈ live, entry.1 = connection ∧ groupId ∈ entry.2.1
  sent : frames < nextFrames
  only : ∀ other server, servers other = some server → .pushActions frames ∈ server.mailbox →
    other = groupId
  once : delivered.count (connection, frames) + pending servers groupId frames = 1

/-- The call a subscribe waits for is the last message of the GroupServer it was handed. -/
structure Waits (servers : String → Option GroupServer) (groupId : String) (ref : Nat)
    (connection : ConnectionPid) : Prop where
  last : ∃ server before, servers groupId = some server ∧
    server.mailbox = before ++ [.addSubscriber ref connection] ∧
      ∀ other, .addSubscriber ref other ∉ before
  only : ∀ other server, servers other = some server →
    ∀ subscriber, .addSubscriber ref subscriber ∈ server.mailbox → other = groupId

def Stage (servers : String → Option GroupServer) (nextRef : Nat) (call : Subscribing) : Prop :=
  match call.progress with
  | .next => True
  | .handed => ∃ groupId server, call.remaining.head? = some groupId ∧
      servers groupId = some server
  | .waiting ref => ref < nextRef ∧ ∃ groupId, call.remaining.head? = some groupId ∧
      Waits servers groupId ref call.connection

/-- The groups a subscribe is through with hold its connection. -/
structure Progressing (servers : String → Option GroupServer) (exited : List ConnectionPid)
    (nextRef : Nat) (call : Subscribing) : Prop where
  added : ∀ groupId ∈ call.groupIds, groupId ∈ call.remaining ∨ call.connection ∈ exited ∨
    Holds servers groupId call.connection
  stage : Stage servers nextRef call

structure Invariant (system : System) : Prop where
  sound : ∀ groupId server, system.servers groupId = some server →
    Sound system.nextRef system.nextFrames server
  delivered : ∀ delivery ∈ system.delivered, delivery.2 < system.nextFrames
  alive : ∀ entry ∈ system.callers.live, entry.1 ∉ system.exited
  holds : ∀ entry ∈ system.callers.live, ∀ groupId ∈ entry.2.1,
    Holds system.servers groupId entry.1
  lists : ∀ entry ∈ system.callers.live, system.router.Lists entry.1 entry.2.2
  owes : ∀ entry ∈ system.callers.owed, Owes system.callers.live system.servers system.delivered
    system.nextFrames entry.1 entry.2.1 entry.2.2
  accepted : system.callers.failed = false
  progressing : ∀ call, system.handling = some call →
    Progressing system.servers system.exited system.nextRef call

theorem Invariant.connected (invariant : Invariant system) :
    Connected system where
  subscribed := by
    intro connection groupIds actorId live groupId member
    rcases invariant.holds _ live groupId member with ⟨server, running, subscribed, _⟩
    exact ⟨server, running, subscribed⟩
  listed := fun connection groupIds actorId live => (invariant.lists _ live).2
  once := fun connection groupId frames owed => (invariant.owes _ owed).once
  accepted := invariant.accepted

theorem Invariant.start : Invariant start where
  sound := nofun
  delivered := nofun
  alive := nofun
  holds := nofun
  lists := nofun
  owes := nofun
  accepted := rfl
  progressing := nofun

theorem Invariant.subscribe (invariant : Invariant system) (groupIds : List String)
    (connection : ConnectionPid) (actorId : String) :
    Invariant { system with
      handling := some
        { groupIds, connection, actorId, remaining := groupIds, progress := .next } } :=
  { invariant with
    progressing := by
      intro call same
      cases same
      exact ⟨fun groupId member => .inl member, trivial⟩ }

theorem mem_gone :
    entry ∈ (callers.gone connection).live ↔ entry ∈ callers.live ∧ entry.1 ≠ connection := by
  simp [Callers.gone]

theorem owed_gone {entry : ConnectionPid × String × Nat} :
    entry ∈ (callers.gone connection).owed ↔ entry ∈ callers.owed ∧ entry.1 ≠ connection := by
  simp [Callers.gone]

theorem Owes.gone {other : ConnectionPid}
    (owes : Owes callers.live servers delivered nextFrames connection groupId frames)
    (different : connection ≠ other) :
    Owes (callers.gone other).live servers delivered nextFrames connection groupId frames := by
  rcases owes.live with ⟨entry, live, rfl, member⟩
  exact { owes with live := ⟨entry, mem_gone.mpr ⟨live, different⟩, rfl, member⟩ }

theorem Invariant.exit (invariant : Invariant system) (connection : ConnectionPid) :
    Invariant { system with
      exited := connection :: system.exited
      callers := system.callers.gone connection } where
  sound := invariant.sound
  delivered := invariant.delivered
  alive := by
    intro entry live
    rw [mem_gone] at live
    rw [List.mem_cons, not_or]
    exact ⟨live.2, invariant.alive entry live.1⟩
  holds := fun entry live => invariant.holds entry (mem_gone.mp live).1
  lists := fun entry live => invariant.lists entry (mem_gone.mp live).1
  owes := fun entry owed =>
    (invariant.owes entry (owed_gone.mp owed).1).gone (owed_gone.mp owed).2
  accepted := invariant.accepted
  progressing := by
    intro call handling
    have progressing := invariant.progressing call handling
    refine ⟨fun groupId member => ?_, progressing.stage⟩
    rcases progressing.added groupId member with remaining | exited | holds
    · exact .inl remaining
    · exact .inr (.inl (List.mem_cons_of_mem _ exited))
    · exact .inr (.inr holds)

theorem Invariant.crash (invariant : Invariant system) (none : system.callers.live = [])
    : Invariant system.crash :=
  { invariant with
    lists := by
      intro entry live
      rw [show system.crash.callers.live = [] from none] at live
      cases live
    progressing := nofun }

theorem Invariant.routerDown (invariant : Invariant system) (exited : connection ∈ system.exited) :
    Invariant { system with router := system.router.forgetSubscriber connection } :=
  { invariant with
    lists := by
      intro entry live
      have different : entry.1 ≠ connection := fun same =>
        invariant.alive entry live (same ▸ exited)
      exact (invariant.lists entry live).forgetActorConnection different }

/-! ## What the Router sends -/

theorem pending_self (servers : String → Option GroupServer) (groupId : String)
    (server : GroupServer) (frames : Nat) :
    pending (Function.update servers groupId (some server)) groupId frames =
      server.mailbox.count (.pushActions frames) := by
  rw [pending, Function.update_self, Option.elim_some]

theorem pending_of_ne (different : groupId ≠ changed) (servers : String → Option GroupServer)
    (next : Option GroupServer) (frames : Nat) :
    pending (Function.update servers changed next) groupId frames =
      pending servers groupId frames := by
  rw [pending, Function.update_of_ne different, pending]

theorem pending_of_some (running : servers groupId = some server) (frames : Nat) :
    pending servers groupId frames = server.mailbox.count (.pushActions frames) := by
  rw [pending, running, Option.elim_some]

theorem Sound.send (sound : Sound nextRef nextFrames server)
    (before : Before nextRef nextFrames message) :
    Sound nextRef nextFrames (server.send message) where
  nodup := sound.nodup
  sent := by
    intro other member
    rcases List.mem_append.mp member with old | new
    · exact sound.sent other old
    · exact List.mem_singleton.mp new ▸ before

theorem Holds.send (holds : Holds servers groupId connection)
    (running : servers changed = some server) (other : message ≠ .removeSubscriber connection) :
    Holds (Function.update servers changed (some (server.send message))) groupId connection := by
  refine holds.update running fun member unremoved => ⟨_, rfl, member, ?_⟩
  rw [GroupServer.send, List.mem_append, List.mem_singleton, not_or]
  exact ⟨unremoved, other.symm⟩

theorem Holds.castTo (holds : Holds servers groupId connection)
    (other : message ≠ .removeSubscriber connection) :
    Holds (castTo message servers changed) groupId connection := by
  unfold LiveSubscriptions.castTo
  cases running : servers changed with
  | none => exact holds
  | some server => exact holds.send running other

theorem Owes.send (owes : Owes live servers delivered nextFrames connection groupId frames)
    (running : servers changed = some server) (other : message ≠ .pushActions frames) :
    Owes live (Function.update servers changed (some (server.send message))) delivered nextFrames
      connection groupId frames where
  live := owes.live
  sent := owes.sent
  only := by
    intro group there found member
    by_cases same : group = changed
    · subst same
      rw [Function.update_self] at found
      cases found
      rcases List.mem_append.mp member with old | new
      · exact owes.only group server running old
      · exact absurd (List.mem_singleton.mp new).symm other
    · rw [Function.update_of_ne same] at found
      exact owes.only group there found member
  once := by
    rw [← owes.once]
    by_cases same : groupId = changed
    · subst same
      rw [pending_self, pending_of_some running, GroupServer.send, List.count_append,
        List.count_eq_zero_of_not_mem (fun member => other (List.mem_singleton.mp member).symm),
        Nat.add_zero]
    · rw [pending_of_ne same]

theorem castTo_removeSubscriber (groupIds : List String)
    (property : (String → Option GroupServer) → Prop)
    (sent : ∀ servers changed server, property servers → servers changed = some server →
      property (Function.update servers changed
      (some (server.send (.removeSubscriber connection)))))
    (holds : property servers) :
    property (groupIds.foldl (castTo (.removeSubscriber connection)) servers) := by
  refine List.foldlRecOn groupIds _ holds fun servers holds groupId _ => ?_
  unfold castTo
  cases running : servers groupId with
  | none => exact holds
  | some server => exact sent servers groupId server holds running

theorem Invariant.unsubscribe (invariant : Invariant system) (idle : system.handling = none)
    (connection : ConnectionPid) :
    Invariant (system.unsubscribe connection) where
  sound := by
    refine castTo_removeSubscriber _ (fun servers => ∀ groupId server,
      servers groupId = some server → Sound system.nextRef system.nextFrames server)
      (fun servers changed server sound running => ?_) invariant.sound
    refine all_update sound fun next same => ?_
    cases same
    exact (sound changed server running).send trivial
  delivered := invariant.delivered
  alive := fun entry live => invariant.alive entry (mem_gone.mp live).1
  holds := by
    intro entry live groupId member
    rw [System.unsubscribe, mem_gone] at live
    refine castTo_removeSubscriber _ (fun servers => Holds servers groupId entry.1)
      (fun servers changed server holds running => ?_)
      (invariant.holds entry live.1 groupId member)
    apply holds.send running
    rintro same
    exact live.2 (GroupMessage.removeSubscriber.inj same).symm
  lists := by
    intro entry live
    rw [System.unsubscribe, mem_gone] at live
    exact (invariant.lists entry live.1).forgetActorConnection live.2
  owes := by
    intro entry owed
    rw [System.unsubscribe, owed_gone] at owed
    refine castTo_removeSubscriber _ (fun servers => Owes (system.callers.gone connection).live
        servers system.delivered system.nextFrames entry.1 entry.2.1 entry.2.2)
      (fun servers changed server owes running => ?_)
      ((invariant.owes entry owed.1).gone owed.2)
    exact owes.send running nofun
  accepted := invariant.accepted
  progressing := by
    intro call handling
    cases idle.symm.trans handling

theorem Owes.later (owes : Owes live servers delivered nextFrames connection groupId frames) :
    Owes live servers delivered (nextFrames + 1) connection groupId frames :=
  { owes with sent := Nat.lt_succ_of_lt owes.sent }

theorem Sound.later {laterRef laterFrames : Nat} (sound : Sound nextRef nextFrames server)
    (refs : nextRef ≤ laterRef) (dispatches : nextFrames ≤ laterFrames)
    : Sound laterRef laterFrames server where
  nodup := sound.nodup
  sent := by
    intro message member
    have before := sound.sent message member
    cases message with
    | addSubscriber ref connection => exact Nat.lt_of_lt_of_le before refs
    | removeSubscriber connection => trivial
    | pushActions frames => exact Nat.lt_of_lt_of_le before dispatches

theorem owes_dispatched (member : entry ∈ live) (group : groupId ∈ entry.2.1)
    (running : servers groupId = some server)
    (sound : ∀ groupId server, servers groupId = some server → Sound nextRef nextFrames server)
    (fresh : ∀ delivery ∈ delivered, delivery.2 < nextFrames) :
    Owes live (Function.update servers groupId (some (server.send (.pushActions nextFrames))))
      delivered (nextFrames + 1) entry.1 groupId nextFrames where
  live := ⟨entry, member, rfl, group⟩
  sent := Nat.lt_succ_self _
  only := by
    intro other there found pushed
    by_contra different
    rw [Function.update_of_ne different] at found
    exact Nat.lt_irrefl _ ((sound other there found).sent _ pushed)
  once := by
    have undelivered : (entry.1, nextFrames) ∉ delivered := fun early =>
      Nat.lt_irrefl _ (fresh _ early)
    have unsent : .pushActions nextFrames ∉ server.mailbox := fun early =>
      Nat.lt_irrefl _ ((sound groupId server running).sent _ early)
    rw [pending_self, GroupServer.send, List.count_append,
      List.count_eq_zero_of_not_mem undelivered, List.count_eq_zero_of_not_mem unsent,
      List.count_singleton_self]

theorem mem_dispatched {entry : ConnectionPid × String × Nat} :
    entry ∈ (callers.dispatched groupId frames).owed ↔ entry ∈ callers.owed ∨
      ∃ connection ∈ callers.live, groupId ∈ connection.2.1 ∧
        entry = (connection.1, groupId, frames) := by
  simp [Callers.dispatched, eq_comm, and_assoc]

theorem Invariant.dispatch (invariant : Invariant system) (idle : system.handling = none)
    (groupId : String) :
    Invariant (system.dispatch groupId) where
  sound := by
    have later : ∀ other there, system.servers other = some there →
        Sound system.nextRef (system.nextFrames + 1) there := fun other there found =>
      (invariant.sound other there found).later (Nat.le_refl _) (Nat.le_succ _)
    rw [System.dispatch]
    unfold castTo
    cases running : system.servers groupId with
    | none => exact later
    | some server =>
        refine all_update later fun next same => ?_
        cases same
        exact (later groupId server running).send (Nat.lt_succ_self _)
  delivered := fun delivery member => Nat.lt_succ_of_lt (invariant.delivered delivery member)
  alive := invariant.alive
  holds := fun entry live group member => (invariant.holds entry live group member).castTo nofun
  lists := invariant.lists
  owes := by
    intro entry owed
    rw [System.dispatch, mem_dispatched] at owed
    rcases owed with owed | ⟨connection, live, member, rfl⟩
    · have owes := invariant.owes entry owed
      have older : .pushActions system.nextFrames ≠ GroupMessage.pushActions entry.2.2 :=
        fun same => Nat.lt_irrefl _ (GroupMessage.pushActions.inj same ▸ owes.sent)
      rw [System.dispatch]
      unfold castTo
      cases running : system.servers groupId with
      | none => exact owes.later
      | some server => exact (owes.send running older).later
    · rcases invariant.holds connection live groupId member with ⟨server, running, _, _⟩
      simp only [System.dispatch, castTo, running]
      exact owes_dispatched live member running invariant.sound invariant.delivered
  accepted := invariant.accepted
  progressing := by
    intro call handling
    cases idle.symm.trans handling

/-! ## The Router goes on -/

theorem mem_subscribed (live : entry ∈ (callers.subscribed call).live) :
    (entry.1 = call.connection ∧ entry.2.2 = call.actorId ∧
      ∀ groupId ∈ entry.2.1, groupId ∈ call.groupIds ∨
        ∃ earlier ∈ callers.live, earlier.1 = call.connection ∧ groupId ∈ earlier.2.1) ∨
    entry ∈ callers.live ∧ entry.1 ≠ call.connection := by
  rcases List.mem_cons.mp live with rfl | older
  · refine .inl ⟨rfl, rfl, fun groupId member => ?_⟩
    simpa [and_assoc, or_comm] using member
  · refine .inr ?_
    simpa using older

theorem Owes.subscribed
    (owes : Owes callers.live servers delivered nextFrames connection groupId frames)
    (call : Subscribing) :
    Owes (callers.subscribed call).live servers delivered nextFrames connection groupId frames := by
  rcases owes.live with ⟨entry, live, rfl, member⟩
  refine { owes with live := ?_ }
  by_cases same : entry.1 = call.connection
  · refine ⟨_, List.mem_cons_self, same.symm, ?_⟩
    exact List.mem_append_left _ (List.mem_flatMap.mpr
      ⟨entry, List.mem_filter.mpr ⟨live, decide_eq_true same⟩, member⟩)
  · exact ⟨entry, List.mem_cons_of_mem _ (List.mem_filter.mpr ⟨live, decide_eq_true same⟩), rfl,
      member⟩

theorem Invariant.finishSubscribe (invariant : Invariant system)
    (handling : system.handling = some call) (finished : call.remaining = [])
    : Invariant (system.finishSubscribe call) := by
  have progressing := invariant.progressing call handling
  have others : ∀ entry ∈ system.callers.live, entry.1 ≠ call.connection →
      (system.router.putSubscriber call.groupIds call.connection call.actorId).Lists entry.1
        entry.2.2 :=
    fun entry live different => (invariant.lists entry live).putActorConnection different
  by_cases exited : call.connection ∈ system.exited
  · rw [System.finishSubscribe, if_pos exited]
    exact { invariant with
      lists := fun entry live => others entry live fun same =>
        invariant.alive entry live (same ▸ exited)
      progressing := nofun }
  · rw [System.finishSubscribe, if_neg exited]
    constructor
    case sound => exact invariant.sound
    case delivered => exact invariant.delivered
    case alive =>
      intro entry live
      rcases mem_subscribed live with ⟨same, _, _⟩ | ⟨older, _⟩
      · exact same ▸ exited
      · exact invariant.alive entry older
    case holds =>
      intro entry live groupId member
      rcases mem_subscribed live with ⟨same, _, groups⟩ | ⟨older, _⟩
      · rw [same]
        rcases groups groupId member with new | ⟨earlier, lived, its, group⟩
        · rcases progressing.added groupId new with remaining | gone | holds
          · rw [finished] at remaining
            cases remaining
          · exact absurd gone exited
          · exact holds
        · exact its ▸ invariant.holds earlier lived groupId group
      · exact invariant.holds entry older groupId member
    case lists =>
      intro entry live
      rcases mem_subscribed live with ⟨same, actor, _⟩ | ⟨older, different⟩
      · rw [same, actor]
        exact system.router.lists_putActorConnection call.connection call.actorId
      · exact others entry older different
    case owes => exact fun entry owed => (invariant.owes entry owed).subscribed call
    case accepted => exact invariant.accepted
    case progressing => exact nofun

theorem Holds.startChild {started : String} {server : Option GroupServer}
    (holds : Holds servers groupId connection) (absent : servers started = none) :
    Holds (Function.update servers started server) groupId connection := by
  rcases holds with ⟨there, found, holds⟩
  have different : groupId ≠ started := by
    rintro rfl
    cases absent.symm.trans found
  exact ⟨there, (Function.update_of_ne different _ _).trans found, holds⟩

theorem Owes.startChild {started : String}
    (owes : Owes live servers delivered nextFrames connection groupId frames)
    (holds : Holds servers groupId connection) (absent : servers started = none) :
    Owes live (Function.update servers started (some GroupServer.init)) delivered nextFrames
      connection groupId frames where
  live := owes.live
  sent := owes.sent
  only := by
    intro other there found pushed
    by_cases same : other = started
    · subst same
      rw [Function.update_self] at found
      cases found
      cases pushed
    · rw [Function.update_of_ne same] at found
      exact owes.only other there found pushed
  once := by
    rcases holds with ⟨there, found, _⟩
    have different : groupId ≠ started := by
      rintro rfl
      cases absent.symm.trans found
    rw [pending_of_ne different]
    exact owes.once

theorem Invariant.startChild {rest : List String} (invariant : Invariant system)
    (handling : system.handling = some call) (remaining : call.remaining = groupId :: rest) :
    Invariant { system with
      servers := system.startChild groupId
      handling := some { call with progress := .handed } } := by
  have added := (invariant.progressing call handling).added
  unfold System.startChild
  cases running : system.servers groupId with
  | some server =>
      refine { invariant with progressing := fun next same => ?_ }
      cases same
      exact ⟨added, groupId, server, by rw [remaining]; rfl, running⟩
  | none =>
      constructor
      case sound =>
        refine all_update invariant.sound fun server same => ?_
        cases same
        exact ⟨List.nodup_nil, nofun⟩
      case delivered => exact invariant.delivered
      case alive => exact invariant.alive
      case holds =>
        intro entry live group member
        exact (invariant.holds entry live group member).startChild running
      case lists => exact invariant.lists
      case owes =>
        intro entry owed
        have owes := invariant.owes entry owed
        rcases owes.live with ⟨connection, live, same, member⟩
        exact owes.startChild (same ▸ invariant.holds connection live entry.2.1 member) running
      case accepted => exact invariant.accepted
      case progressing =>
        intro next same
        cases same
        refine ⟨fun group member => ?_, groupId, GroupServer.init, by rw [remaining]; rfl,
          Function.update_self _ _ _⟩
        exact (added group member).imp_right (Or.imp_right fun holds => holds.startChild running)

theorem Invariant.callServer {rest : List String} (invariant : Invariant system)
    (handling : system.handling = some call) (remaining : call.remaining = groupId :: rest)
    (running : system.servers groupId = some server) :
    Invariant { system with
      servers := Function.update system.servers groupId
        (some (server.send (.addSubscriber system.nextRef call.connection)))
      nextRef := system.nextRef + 1
      handling := some { call with progress := .waiting system.nextRef } } := by
  have unused : ∀ other there, system.servers other = some there →
      ∀ connection, .addSubscriber system.nextRef connection ∉ there.mailbox :=
    fun other there found connection early =>
      Nat.lt_irrefl _ ((invariant.sound other there found).sent _ early)
  constructor
  case sound =>
    refine all_update (fun other there found =>
      (invariant.sound other there found).later (Nat.le_succ _) (Nat.le_refl _)) fun next same => ?_
    cases same
    exact ((invariant.sound groupId server running).later (Nat.le_succ _) (Nat.le_refl _)).send
      (Nat.lt_succ_self _)
  case delivered => exact invariant.delivered
  case alive => exact invariant.alive
  case holds => exact fun entry live group member =>
    (invariant.holds entry live group member).send running nofun
  case lists => exact invariant.lists
  case owes => exact fun entry owed => (invariant.owes entry owed).send running nofun
  case accepted => exact invariant.accepted
  case progressing =>
    intro next same
    cases same
    refine ⟨fun group member => ?_, Nat.lt_succ_self _, groupId, by rw [remaining]; rfl, ?_, ?_⟩
    · exact ((invariant.progressing call handling).added group member).imp_right
        (Or.imp_right fun holds => holds.send running nofun)
    · exact ⟨_, server.mailbox, Function.update_self _ _ _, rfl, unused groupId server running⟩
    · intro other there found connection member
      by_contra different
      have older := (Function.update_of_ne different _ _).symm.trans found
      exact unused other there older connection member

theorem Invariant.advance {next : System} (invariant : Invariant system)
    (advanced : system.advance = some next) : Invariant next := by
  unfold System.advance at advanced
  cases handling : system.handling with
  | none =>
      rw [handling] at advanced
      cases advanced
  | some call =>
      have stage := (invariant.progressing call handling).stage
      rcases call with ⟨groupIds, connection, actorId, remaining, progress⟩
      rw [handling] at advanced
      cases remaining with
      | nil =>
          cases advanced
          exact invariant.finishSubscribe handling rfl
      | cons groupId rest =>
          cases progress with
          | next =>
              cases advanced
              exact invariant.startChild handling rfl
          | handed =>
              rcases stage with ⟨_, server, head, running⟩
              cases head
              simp only [running] at advanced
              cases advanced
              exact invariant.callServer handling rfl running
          | waiting ref =>
              rcases stage with ⟨_, _, head, ⟨server, _, running, _⟩, _⟩
              cases head
              simp only [running] at advanced
              cases advanced

/-! ## A GroupServer goes on -/

theorem Owes.update {later : List (ConnectionPid × Nat)}
    (owes : Owes live servers delivered nextFrames connection groupId frames)
    (running : servers changed = some server)
    (shrinks : ∀ there, next = some there → ∀ message ∈ there.mailbox, message ∈ server.mailbox)
    (here : groupId = changed → ∃ there, next = some there ∧
      later.count (connection, frames) + there.mailbox.count (.pushActions frames) = delivered.count
      (connection, frames) + server.mailbox.count (.pushActions frames))
    (elsewhere : groupId ≠ changed → later.count (connection, frames) = delivered.count (connection,
      frames)) :
    Owes live (Function.update servers changed next) later nextFrames connection groupId
      frames where
  live := owes.live
  sent := owes.sent
  only := by
    intro other there found pushed
    by_cases same : other = changed
    · subst same
      rw [Function.update_self] at found
      exact owes.only other server running (shrinks there found _ pushed)
    · rw [Function.update_of_ne same] at found
      exact owes.only other there found pushed
  once := by
    rw [← owes.once]
    by_cases same : groupId = changed
    · subst same
      rcases here rfl with ⟨there, rfl, counts⟩
      rw [pending_self, pending_of_some running, counts]
    · rw [pending_of_ne same, elsewhere same]

theorem Waits.update {ref : Nat} (waits : Waits servers groupId ref connection)
    (taken : List GroupMessage) (running : servers changed = some server)
    (shrinks : ∀ there, next = some there → server.mailbox = taken ++ there.mailbox)
    (unanswered : ∀ subscriber, .addSubscriber ref subscriber ∉ taken)
    (runs : groupId = changed → next.isSome = true) :
    Waits (Function.update servers changed next) groupId ref connection where
  last := by
    rcases waits.last with ⟨there, before, found, ends, fresh⟩
    by_cases same : groupId = changed
    · subst same
      cases found.symm.trans running
      rcases Option.isSome_iff_exists.mp (runs rfl) with ⟨there, rfl⟩
      have split := ends.symm.trans (shrinks there rfl)
      rcases List.append_eq_append_iff.mp split with ⟨more, long, tail⟩ | ⟨before', short, tail⟩
      · cases more with
        | nil =>
            refine ⟨there, [], Function.update_self _ _ _, ?_, nofun⟩
            simpa using tail.symm
        | cons first more =>
            have awaited : .addSubscriber ref connection = first :=
              (List.cons.inj tail).1
            refine absurd ?_ (unanswered connection)
            rw [long, awaited]
            exact List.mem_append_right _ List.mem_cons_self
      · refine ⟨there, before', Function.update_self _ _ _, tail, fun subscriber member => ?_⟩
        exact fresh subscriber (short ▸ List.mem_append_right _ member)
    · exact ⟨there, before, (Function.update_of_ne same _ _).trans found, ends, fresh⟩
  only := by
    intro other there found subscriber member
    by_cases same : other = changed
    · subst same
      rw [Function.update_self] at found
      apply waits.only other server running subscriber
      rw [shrinks there found]
      exact List.mem_append_right _ member
    · rw [Function.update_of_ne same] at found
      exact waits.only other there found subscriber member

theorem Stage.update (stage : Stage servers nextRef call) (taken : List GroupMessage)
    (running : servers changed = some server)
    (shrinks : ∀ there, next = some there → server.mailbox = taken ++ there.mailbox)
    (unanswered : ∀ ref, call.progress = .waiting ref →
      ∀ subscriber, .addSubscriber ref subscriber ∉ taken)
    (runs : call.progress ≠ .next → call.remaining.head? = some changed → next.isSome = true) :
    Stage (Function.update servers changed next) nextRef call := by
  unfold Stage at stage ⊢
  cases progress : call.progress with
  | next => trivial
  | handed =>
      rw [progress] at stage runs
      rcases stage with ⟨groupId, there, head, found⟩
      by_cases same : groupId = changed
      · subst same
        rcases Option.isSome_iff_exists.mp (runs nofun head) with ⟨there, rfl⟩
        exact ⟨groupId, there, head, Function.update_self _ _ _⟩
      · exact ⟨groupId, there, head, (Function.update_of_ne same _ _).trans found⟩
  | waiting ref =>
      rw [progress] at stage runs
      rcases stage with ⟨sent, groupId, head, waits⟩
      exact ⟨sent, groupId, head, waits.update taken running shrinks (unanswered ref progress)
        fun same => runs nofun (same ▸ head)⟩

theorem Sound.removeSubscriber {next : GroupServer} (sound : Sound nextRef nextFrames server)
    (runs : server.removeSubscriber connection = some next) : Sound nextRef nextFrames next := by
  rw [removeSubscriber_some runs]
  exact ⟨sound.nodup.erase connection, sound.sent⟩

theorem Invariant.removed {left : GroupServer} (invariant : Invariant system)
    (running : system.servers groupId = some server)
    (subscribers : left.subscribers = server.subscribers) (taken : List GroupMessage)
    (mailbox : server.mailbox = taken ++ left.mailbox)
    (removals : ∀ message ∈ taken, message = .removeSubscriber connection)
    (outside : ∀ other, other ∉ system.exited → .removeSubscriber other ∉ server.mailbox →
      other ≠ connection)
    (meets : system.Handed groupId → Stays server connection) :
    Invariant { system with
      servers := Function.update system.servers groupId (left.removeSubscriber connection) } := by
  have kept : ∀ other ∈ server.subscribers, other ≠ connection →
      ∃ next, left.removeSubscriber connection = some next ∧ other ∈ next.subscribers ∧
        next.mailbox = left.mailbox :=
    fun other member different => removeSubscriber_keeps left (subscribers ▸ member) different
  have same : ∀ next, left.removeSubscriber connection = some next →
      next.mailbox = left.mailbox := by
    intro next runs
    rw [removeSubscriber_some runs]
  have sublist : ∀ message ∈ left.mailbox, message ∈ server.mailbox := by
    intro message member
    rw [mailbox]
    exact List.mem_append_right _ member
  have holds : ∀ group other, other ∉ system.exited → Holds system.servers group other →
      Holds (Function.update system.servers groupId (left.removeSubscriber connection)) group
        other := by
    intro group other alive holds
    refine holds.update running fun member unremoved => ?_
    rcases kept other member (outside other alive unremoved) with ⟨next, runs, still, box⟩
    exact ⟨next, runs, still, fun queued => unremoved (sublist _ (box ▸ queued))⟩
  constructor
  case sound =>
    refine all_update invariant.sound fun next runs => ?_
    have sound := invariant.sound groupId server running
    exact Sound.removeSubscriber ⟨subscribers ▸ sound.nodup,
      fun message member => sound.sent message (sublist message member)⟩ runs
  case delivered => exact invariant.delivered
  case alive => exact invariant.alive
  case holds =>
    intro entry live group member
    exact holds group entry.1 (invariant.alive entry live)
      (invariant.holds entry live group member)
  case lists => exact invariant.lists
  case owes =>
    intro entry owed
    have owes := invariant.owes entry owed
    refine owes.update running (fun next runs => ?_) (fun here => ?_) fun _ => rfl
    · rw [same next runs]
      exact sublist
    · rcases owes.live with ⟨subscriber, live, _, member⟩
      rcases invariant.holds subscriber live entry.2.1 member with ⟨there, found, its, unremoved⟩
      rw [here, running] at found
      cases found
      rcases kept subscriber.1 its (outside _ (invariant.alive subscriber live) unremoved) with
        ⟨next, runs, _, box⟩
      refine ⟨next, runs, ?_⟩
      have unpushed : .pushActions entry.2.2 ∉ taken := fun pushed => nomatch removals _ pushed
      rw [box, mailbox, List.count_append, List.count_eq_zero_of_not_mem unpushed, Nat.zero_add]
  case accepted => exact invariant.accepted
  case progressing =>
    intro call handling
    have progressing := invariant.progressing call handling
    constructor
    case added =>
      intro group member
      by_cases exited : call.connection ∈ system.exited
      · exact .inr (.inl exited)
      · exact (progressing.added group member).imp_right
          (Or.imp_right (holds group call.connection exited))
    case stage =>
      refine progressing.stage.update taken running (fun next runs => ?_)
        (fun _ _ _ awaited => nomatch removals _ awaited) fun busy head => ?_
      · rw [same next runs, mailbox]
      · rcases meets ⟨call, handling, busy, head⟩ with ⟨other, member, different⟩
        rcases kept other member different with ⟨next, runs, _⟩
        rw [runs]
        rfl

theorem Invariant.serverDown {next : System} (invariant : Invariant system)
    (meets : system.StepMeets (.serverDown groupId connection))
    (down : system.serverDown groupId connection = some next) : Invariant next := by
  unfold System.serverDown at down
  cases running : system.servers groupId with
  | none =>
      simp only [running] at down
      cases down
  | some server =>
      simp only [running] at down
      by_cases enabled : connection ∈ system.exited ∧ connection ∈ server.monitors
      · rw [if_pos enabled] at down
        cases down
        refine invariant.removed running rfl [] rfl nofun (fun other alive _ same => ?_)
          fun handed => meets handed server running
        exact alive (same ▸ enabled.1)
      · rw [if_neg enabled] at down
        cases down

theorem count_deliveries {subscribers : List ConnectionPid} (nodup : subscribers.Nodup)
    (connection : ConnectionPid) (frames other : Nat) :
    (subscribers.map fun subscriber => (subscriber, frames)).count (connection, other) =
      if frames = other ∧ connection ∈ subscribers then 1 else 0 := by
  induction subscribers with
  | nil => simp
  | cons first rest induction =>
      rw [List.nodup_cons] at nodup
      rw [List.map_cons, List.count_cons, induction nodup.2]
      by_cases here : first = connection
      · subst here
        by_cases same : frames = other
        · simp [same, nodup.1]
        · simp [same]
      · simp [here, Ne.symm here]

theorem Invariant.pushed (invariant : Invariant system)
    (running : system.servers groupId = some server)
    (queued : server.mailbox = .pushActions frames :: rest) :
    Invariant { system with
      servers := Function.update system.servers groupId (some { server with mailbox := rest })
      delivered := system.delivered ++ server.subscribers.map fun connection =>
        (connection, frames) } := by
  have sound := invariant.sound groupId server running
  have holds : ∀ group other, Holds system.servers group other →
      Holds (Function.update system.servers groupId (some { server with mailbox := rest })) group
        other := by
    intro group other holds
    refine holds.update running fun member unremoved => ⟨_, rfl, member, fun still => ?_⟩
    exact unremoved (queued ▸ List.mem_cons_of_mem _ still)
  constructor
  case sound =>
    refine all_update invariant.sound fun next same => ?_
    cases same
    exact ⟨sound.nodup, fun message member =>
      sound.sent message (queued ▸ List.mem_cons_of_mem _ member)⟩
  case delivered =>
    intro delivery member
    rcases List.mem_append.mp member with old | new
    · exact invariant.delivered delivery old
    · rcases List.mem_map.mp new with ⟨connection, _, rfl⟩
      exact sound.sent _ (queued ▸ List.mem_cons_self)
  case alive => exact invariant.alive
  case holds =>
    intro entry live group member
    exact holds group entry.1 (invariant.holds entry live group member)
  case lists => exact invariant.lists
  case owes =>
    intro entry owed
    have owes := invariant.owes entry owed
    refine owes.update running (fun next same => ?_) (fun here => ⟨_, rfl, ?_⟩) fun elsewhere => ?_
    · cases same
      exact fun message member => queued ▸ List.mem_cons_of_mem _ member
    · rcases owes.live with ⟨subscriber, live, its, member⟩
      rcases invariant.holds subscriber live entry.2.1 member with ⟨there, found, subscribed, _⟩
      rw [here, running] at found
      cases found
      rw [List.count_append, count_deliveries sound.nodup, queued, List.count_cons]
      by_cases same : frames = entry.2.2
      · rw [if_pos ⟨same, its ▸ subscribed⟩, same, beq_self_eq_true, if_pos rfl]
        exact Nat.add_right_comm _ _ _
      · have other : (GroupMessage.pushActions frames == .pushActions entry.2.2) = false :=
          beq_false_of_ne fun equal => same (GroupMessage.pushActions.inj equal)
        rw [if_neg fun both => same both.1, other]
        rfl
    · have other : frames ≠ entry.2.2 := by
        intro same
        apply elsewhere
        exact (owes.only groupId server running
          (queued ▸ same ▸ List.mem_cons_self)).symm
      rw [List.count_append, count_deliveries sound.nodup, if_neg fun both => other both.1,
        Nat.add_zero]
  case accepted => exact invariant.accepted
  case progressing =>
    intro call handling
    have progressing := invariant.progressing call handling
    constructor
    case added =>
      intro group member
      exact (progressing.added group member).imp_right
        (Or.imp_right (holds group call.connection))
    case stage =>
      refine progressing.stage.update [.pushActions frames] running (fun next same => ?_)
        (fun _ _ _ => by simp) fun _ _ => rfl
      cases same
      exact queued

theorem Waits.answered {ref : Nat} {subscriber : ConnectionPid}
    (waits : Waits servers groupId ref connection) (running : servers changed = some server)
    (queued : server.mailbox = .addSubscriber ref subscriber :: rest) :
    changed = groupId ∧ subscriber = connection ∧ rest = [] := by
  have here := waits.only changed server running subscriber (queued ▸ List.mem_cons_self)
  subst here
  rcases waits.last with ⟨there, before, found, ends, fresh⟩
  cases found.symm.trans running
  rw [queued] at ends
  cases before with
  | nil =>
      cases ends
      exact ⟨rfl, rfl, rfl⟩
  | cons first before =>
      cases ends
      exact absurd List.mem_cons_self (fresh subscriber)

theorem Invariant.added {ref : Nat} (invariant : Invariant system)
    (running : system.servers groupId = some server)
    (queued : server.mailbox = .addSubscriber ref connection :: rest) :
    Invariant { system with
      servers := Function.update system.servers groupId
        (some ({ server with mailbox := rest }.addSubscriber connection))
      handling := system.handling.map fun call => call.reply ref } := by
  have sound := invariant.sound groupId server running
  have holds : ∀ group other, Holds system.servers group other →
      Holds (Function.update system.servers groupId
        (some (({ server with mailbox := rest } : GroupServer).addSubscriber connection))) group
          other := by
    intro group other holds
    refine holds.update running fun member unremoved =>
      ⟨_, rfl, List.mem_insert_of_mem member, fun still => ?_⟩
    exact unremoved (queued ▸ List.mem_cons_of_mem _ still)
  constructor
  case sound =>
    refine all_update invariant.sound fun next same => ?_
    cases same
    exact ⟨sound.nodup.insert, fun message member =>
      sound.sent message (queued ▸ List.mem_cons_of_mem _ member)⟩
  case delivered => exact invariant.delivered
  case alive => exact invariant.alive
  case holds =>
    intro entry live group member
    exact holds group entry.1 (invariant.holds entry live group member)
  case lists => exact invariant.lists
  case owes =>
    intro entry owed
    refine (invariant.owes entry owed).update running (fun next same => ?_)
      (fun _ => ⟨_, rfl, ?_⟩) fun _ => rfl
    · cases same
      exact fun message member => queued ▸ List.mem_cons_of_mem _ member
    · have other : GroupMessage.addSubscriber ref connection ≠ .pushActions entry.2.2 := nofun
      rw [queued, List.count_cons_of_ne other]
      rfl
  case accepted => exact invariant.accepted
  case progressing =>
    intro replied same
    rcases Option.map_eq_some_iff.mp same with ⟨call, handling, rfl⟩
    have progressing := invariant.progressing call handling
    by_cases awaited : call.progress = .waiting ref
    · rw [Subscribing.reply, if_pos awaited]
      refine ⟨fun group member => ?_, trivial⟩
      rcases progressing.added group member with remaining | exited | held
      · have stage := progressing.stage
        rw [Stage, awaited] at stage
        rcases stage with ⟨_, first, head, waits⟩
        rcases waits.answered running queued with ⟨rfl, rfl, rfl⟩
        rcases List.head?_eq_some_iff.mp head with ⟨tail, split⟩
        rw [split] at remaining
        rcases List.mem_cons.mp remaining with rfl | later
        · refine .inr (.inr ⟨_, Function.update_self _ _ _, List.mem_insert_self, ?_⟩)
          exact List.not_mem_nil
        · exact .inl (split ▸ later)
      · exact .inr (.inl exited)
      · exact .inr (.inr (holds group call.connection held))
    · rw [Subscribing.reply, if_neg awaited]
      constructor
      case added =>
        intro group member
        exact (progressing.added group member).imp_right
          (Or.imp_right (holds group call.connection))
      case stage =>
        refine progressing.stage.update [.addSubscriber ref connection] running
          (fun next same => ?_) (fun other waiting subscriber member => ?_) fun _ _ => rfl
        · cases same
          exact queued
        · cases List.mem_singleton.mp member
          exact awaited waiting

theorem Invariant.serve {next : System} (invariant : Invariant system)
    (meets : system.StepMeets (.serve groupId)) (served : system.serve groupId = some next) :
    Invariant next := by
  unfold System.serve at served
  cases running : system.servers groupId with
  | none =>
      simp only [running] at served
      cases served
  | some server =>
      cases queued : server.mailbox with
      | nil =>
          simp only [running, queued] at served
          cases served
      | cons message rest =>
          simp only [running, queued] at served
          cases served
          cases message with
          | addSubscriber ref connection => exact invariant.added running queued
          | removeSubscriber connection =>
              refine invariant.removed running rfl [.removeSubscriber connection] queued
                (fun message member => List.mem_singleton.mp member)
                (fun other _ unremoved same => ?_) fun handed => ?_
              · exact unremoved (queued ▸ same ▸ List.mem_cons_self)
              · exact meets handed server running _ (by rw [queued]; rfl)
          | pushActions frames => exact invariant.pushed running queued

/-! ## Every run -/

theorem Invariant.step {next : System} {event : SystemEvent} (invariant : Invariant system)
    (meets : system.StepMeets event) (stepped : system.step event = some next) :
      Invariant next := by
  cases event with
  | subscribe groupIds connection actorId =>
      by_cases idle : system.handling.isNone = true
      · cases (if_pos idle).symm.trans stepped
        exact invariant.subscribe groupIds connection actorId
      · cases (if_neg idle).symm.trans stepped
  | advance => exact invariant.advance stepped
  | unsubscribe connection =>
      by_cases idle : system.handling.isNone = true
      · cases (if_pos idle).symm.trans stepped
        exact invariant.unsubscribe (Option.isNone_iff_eq_none.mp idle) connection
      · cases (if_neg idle).symm.trans stepped
  | dispatch groupId =>
      by_cases idle : system.handling.isNone = true
      · cases (if_pos idle).symm.trans stepped
        exact invariant.dispatch (Option.isNone_iff_eq_none.mp idle) groupId
      · cases (if_neg idle).symm.trans stepped
  | routerDown connection =>
      by_cases enabled : system.handling.isNone = true ∧ connection ∈ system.exited ∧
          connection ∈ system.router.monitors
      · cases (if_pos enabled).symm.trans stepped
        exact invariant.routerDown enabled.2.1
      · cases (if_neg enabled).symm.trans stepped
  | serve groupId => exact invariant.serve meets stepped
  | serverDown groupId connection => exact invariant.serverDown meets stepped
  | exit connection =>
      cases stepped
      exact invariant.exit connection
  | crash =>
      cases stepped
      exact invariant.crash meets

/-- In a run whose Router crashes only without a live connection, and whose GroupServers do not
lose their last subscriber under a subscribe, no live subscription is lost. -/
theorem connected_of_run {events : List SystemEvent} {final : System}
    (meets : machine.Meets StepMeets start events)
    (reached : machine.run start events = some final) : Connected final := by
  have preserved : ∀ system event next, Invariant system → StepMeets system event →
      machine.step system event = some next → Invariant next :=
    fun _ _ _ invariant meets stepped => invariant.step meets stepped
  exact (Machine.run_preserves preserved Invariant.start meets reached).connected

def sharedEvents : List SystemEvent :=
  [.subscribe ["team"] 1 "ada", .advance, .advance, .serve "team", .advance,
    .subscribe ["team"] 2 "bob", .advance, .advance, .serve "team", .advance,
    .dispatch "team", .exit 1, .serve "team", .serverDown "team" 1, .routerDown 1]

theorem connected_of_run_shared :
    ∃ final, machine.run start sharedEvents = some final ∧ Connected final ∧
      final.callers.live = [(2, ["team"], "bob")] ∧ final.callers.owed = [(2, "team", 0)] := by
  refine ⟨_, rfl, connected_of_run (by decide : machine.Meets StepMeets start sharedEvents) rfl,
    by decide, by decide⟩

def crashedEvents : List SystemEvent :=
  [.subscribe ["team"] 1 "ada", .advance, .advance, .serve "team", .advance, .crash]

/-- The last subscriber's exit reaches the GroupServer while a subscribe has been handed it. -/
def stoppedEvents : List SystemEvent :=
  [.subscribe ["team"] 1 "ada", .advance, .advance, .serve "team", .advance, .exit 1,
    .subscribe ["team"] 2 "bob", .advance, .serverDown "team" 1, .advance]

theorem crashed_unlisted_stopped_failed :
    (∃ final, machine.run start crashedEvents = some final ∧
      (1, ["team"], "ada") ∈ final.callers.live ∧ ¬ Connected final) ∧
    ∃ final, machine.run start stoppedEvents = some final ∧ final.callers.failed = true ∧
      ¬ Connected final := by
  constructor
  · refine ⟨_, rfl, by decide, fun connected => ?_⟩
    rcases connected.listed 1 ["team"] "ada" (by decide) with ⟨pids, listed, _⟩
    cases listed
  · refine ⟨_, rfl, rfl, fun connected => ?_⟩
    cases connected.accepted

end System

end Ebb.Sync.LiveSubscriptions
