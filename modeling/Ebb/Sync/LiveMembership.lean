import Ebb.Foundation.Machine

namespace Ebb.Sync

/-! The groups of the live subscription and the handshakes behind them: `subscribe`, `handshake`,
`refreshMembership` and what they call in `packages/client/src/sync/client.ts`. A handshake takes
effect in one go when its response is in; a refresh goes on behind it, in a later microtask. -/

structure HandshakeGroup where
  id : String
  apps : Option (List String)
deriving DecidableEq

/-- A handshake that was sent and has not been answered. -/
inductive Handshake where
  /-- The application called it. -/
  | called
  /-- A refresh sent it, and no handshake had run. -/
  | learning
  /-- A refresh sent it, with the groups it found. -/
  | refreshing (previous : List String)
deriving DecidableEq

/-- What a refresh goes on with once its handshake has returned. -/
structure MembershipDelta where
  added : List String
  removed : List String
deriving DecidableEq

structure MembershipClient where
  appId : Option String
  actorGroups : List String
  handshakeRan : Bool
  inAppScope : List String
  /-- The group ids of the active subscription. -/
  activeSub : Option (List String)
  inFlight : List Handshake
  returned : List MembershipDelta

def isInAppScope (apps : Option (List String)) (appId : Option String) : Bool :=
  match appId, apps with
  | none, _ => true
  | some _, none => true
  | some app, some labels => labels.contains app

namespace MembershipClient

/-! ## The client's steps -/

def create (appId : Option String) : MembershipClient where
  appId
  actorGroups := []
  handshakeRan := false
  inAppScope := []
  activeSub := none
  inFlight := []
  returned := []

def applyLiveSubscription (client : MembershipClient) (kept : List String) : MembershipClient :=
  match client.activeSub with
  | none => client
  | some groupIds =>
      if kept = groupIds then client
      else if kept.length = 0 then { client with activeSub := none }
      else { client with activeSub := some kept }

def reconcileSubscriptionScope (client : MembershipClient) (nextInScope : List String) :
    MembershipClient :=
  match client.appId with
  | none => client
  | some _ =>
      let left := client.inAppScope.filter fun groupId => !nextInScope.contains groupId
      let client := { client with inAppScope := nextInScope }
      if left.length = 0 then client
      else
        match client.activeSub with
        | none => client
        | some groupIds =>
            client.applyLiveSubscription (groupIds.filter fun groupId => !left.contains groupId)

def reconcileLiveMembership (client : MembershipClient) (added removed : List String) :
    MembershipClient :=
  match client.activeSub with
  | none => client
  | some groupIds =>
      let kept := groupIds.filter fun groupId => !removed.contains groupId
      client.applyLiveSubscription (added.foldl
        (fun kept groupId => if kept.contains groupId then kept else kept ++ [groupId]) kept)

def reportedGroups (client : MembershipClient) (groups : List HandshakeGroup) : List String :=
  (groups.filter fun group => isInAppScope group.apps client.appId).map HandshakeGroup.id

/-- The end of `handshake`, once nothing is awaited any more. -/
def finishHandshake (client : MembershipClient) (reported : List String) : MembershipClient :=
  { client with actorGroups := reported, handshakeRan := true }.reconcileSubscriptionScope reported

/-- What a refresh sees of the groups before and after its handshake. -/
def membershipDelta (previous reported : List String) : MembershipDelta where
  added := reported.eraseDups.filter fun groupId => !previous.contains groupId
  removed := previous.eraseDups.filter fun groupId => !reported.contains groupId

def subscribe (client : MembershipClient) (groupIds : List String) : MembershipClient :=
  { client with activeSub := some groupIds }

def unsubscribe (client : MembershipClient) : MembershipClient :=
  { client with activeSub := none }

def callHandshake (client : MembershipClient) : MembershipClient :=
  { client with inFlight := client.inFlight ++ [.called] }

def refreshMembership (client : MembershipClient) : MembershipClient :=
  { client with
    inFlight := client.inFlight ++
      [if client.handshakeRan then .refreshing client.actorGroups else .learning] }

def fail (client : MembershipClient) (index : Nat) : MembershipClient :=
  { client with inFlight := client.inFlight.eraseIdx index }

def respond (client : MembershipClient) (index : Nat) (groups : List HandshakeGroup) :
    MembershipClient :=
  match client.inFlight[index]? with
  | none => client
  | some handshake =>
      let reported := client.reportedGroups groups
      let next :=
        { client with inFlight := client.inFlight.eraseIdx index }.finishHandshake reported
      match handshake with
      | .called => next
      | .learning => next
      | .refreshing previous =>
          { next with returned := next.returned ++ [membershipDelta previous reported] }

def resume (client : MembershipClient) (index : Nat) : MembershipClient :=
  match client.returned[index]? with
  | none => client
  | some delta =>
      { client with returned := client.returned.eraseIdx index }.reconcileLiveMembership delta.added
        delta.removed

variable (client : MembershipClient)

/-! ## What a step leaves of the subscription -/

theorem applyLiveSubscription_eq (kept : List String) :
    ∃ active, client.applyLiveSubscription kept = { client with activeSub := active } ∧
      ∀ groupIds, active = some groupIds → client.activeSub.isSome = true ∧ groupIds = kept := by
  rcases client with ⟨appId, actorGroups, handshakeRan, inAppScope, activeSub, inFlight, returned⟩
  cases activeSub with
  | none => exact ⟨none, rfl, nofun⟩
  | some groupIds =>
      by_cases unchanged : kept = groupIds
      · exact ⟨some groupIds, if_pos unchanged, fun other same =>
          ⟨rfl, (Option.some.inj same).symm.trans unchanged.symm⟩⟩
      · by_cases ended : kept.length = 0
        · exact ⟨none, (if_neg unchanged).trans (if_pos ended), nofun⟩
        · exact ⟨some kept, (if_neg unchanged).trans (if_neg ended), fun other same =>
            ⟨rfl, (Option.some.inj same).symm⟩⟩

theorem reconcileSubscriptionScope_eq (nextInScope : List String) :
    ∃ scope active, client.reconcileSubscriptionScope nextInScope =
        { client with inAppScope := scope, activeSub := active } ∧
      (client.appId.isSome = true → scope = nextInScope) ∧
      ∀ groupIds, active = some groupIds → ∃ before, client.activeSub = some before ∧
        ∀ groupId, groupId ∈ groupIds ↔ groupId ∈ before ∧
          ¬ (client.appId.isSome = true ∧ groupId ∈ client.inAppScope ∧
            groupId ∉ nextInScope) := by
  rcases client with ⟨appId, actorGroups, handshakeRan, inAppScope, activeSub, inFlight, returned⟩
  cases appId with
  | none => exact ⟨inAppScope, activeSub, rfl, nofun,
      fun groupIds held => ⟨groupIds, held, fun groupId => by simp⟩⟩
  | some appId =>
      by_cases stays : (inAppScope.filter fun groupId =>
          !nextInScope.contains groupId).length = 0
      · refine ⟨nextInScope, activeSub, if_pos stays, fun _ => rfl, fun groupIds held =>
          ⟨groupIds, held, fun groupId => ?_⟩⟩
        rw [List.length_eq_zero_iff, List.filter_eq_nil_iff] at stays
        simpa using fun _ => stays groupId
      · cases activeSub with
        | none => exact ⟨nextInScope, none, if_neg stays, fun _ => rfl, nofun⟩
        | some before =>
            rcases applyLiveSubscription_eq
                ⟨appId, actorGroups, handshakeRan, nextInScope, some before, inFlight, returned⟩
                (before.filter fun groupId => !(inAppScope.filter fun groupId =>
                  !nextInScope.contains groupId).contains groupId) with ⟨active, applied, kept⟩
            refine ⟨nextInScope, active, (if_neg stays).trans applied, fun _ => rfl,
              fun groupIds same => ⟨before, rfl, fun groupId => ?_⟩⟩
            rw [(kept groupIds same).2]
            grind

theorem mem_addMissing (added kept : List String) (groupId : String) :
    groupId ∈ added.foldl
        (fun kept groupId => if kept.contains groupId then kept else kept ++ [groupId]) kept ↔
      groupId ∈ kept ∨ groupId ∈ added := by
  induction added generalizing kept with
  | nil => simp
  | cons first rest induction =>
      rw [List.foldl_cons, induction]
      by_cases member : first ∈ kept
      · rw [if_pos (List.contains_iff_mem.mpr member)]
        grind
      · rw [if_neg (fun contains => member (List.contains_iff_mem.mp contains))]
        grind

theorem reconcileLiveMembership_eq (added removed : List String) :
    ∃ active, client.reconcileLiveMembership added removed =
        { client with activeSub := active } ∧
      ∀ groupIds, active = some groupIds → ∃ before, client.activeSub = some before ∧
        ∀ groupId, groupId ∈ groupIds ↔
          (groupId ∈ before ∧ groupId ∉ removed) ∨ groupId ∈ added := by
  rcases client with ⟨appId, actorGroups, handshakeRan, inAppScope, activeSub, inFlight, returned⟩
  cases activeSub with
  | none => exact ⟨none, rfl, nofun⟩
  | some before =>
      rcases applyLiveSubscription_eq
          ⟨appId, actorGroups, handshakeRan, inAppScope, some before, inFlight, returned⟩
          (added.foldl (fun kept groupId =>
              if kept.contains groupId then kept else kept ++ [groupId])
            (before.filter fun groupId => !removed.contains groupId)) with ⟨active, applied, kept⟩
      refine ⟨active, applied, fun groupIds same => ⟨before, rfl, fun groupId => ?_⟩⟩
      rw [(kept groupIds same).2, mem_addMissing]
      simp

def asked (handshake : Handshake) (reported : List String) : List MembershipDelta :=
  match handshake with
  | .refreshing previous => [membershipDelta previous reported]
  | _ => []

theorem asked_spec {handshake : Handshake} {reported : List String} {delta : MembershipDelta}
    (member : delta ∈ asked handshake reported) :
    ∃ previous, handshake = .refreshing previous ∧
      (∀ groupId, groupId ∈ delta.added ↔ groupId ∈ reported ∧ groupId ∉ previous) ∧
      ∀ groupId, groupId ∈ delta.removed ↔ groupId ∈ previous ∧ groupId ∉ reported := by
  cases handshake with
  | called => cases member
  | learning => cases member
  | refreshing previous =>
      rw [asked, List.mem_singleton] at member
      subst member
      refine ⟨previous, rfl, fun groupId => ?_, fun groupId => ?_⟩
      · simp [membershipDelta]
      · simp [membershipDelta]

theorem respond_eq {client : MembershipClient} {index : Nat} {handshake : Handshake}
    (sent : client.inFlight[index]? = some handshake) (groups : List HandshakeGroup) :
    ∃ scope active, client.respond index groups =
        { client with
          actorGroups := client.reportedGroups groups
          handshakeRan := true
          inAppScope := scope
          activeSub := active
          inFlight := client.inFlight.eraseIdx index
          returned := client.returned ++ asked handshake (client.reportedGroups groups) } ∧
      (client.appId.isSome = true → scope = client.reportedGroups groups) ∧
      ∀ groupIds, active = some groupIds → ∃ before, client.activeSub = some before ∧
        ∀ groupId, groupId ∈ groupIds ↔ groupId ∈ before ∧
          ¬ (client.appId.isSome = true ∧ groupId ∈ client.inAppScope ∧
            groupId ∉ client.reportedGroups groups) := by
  rcases reconcileSubscriptionScope_eq
      { client with
        inFlight := client.inFlight.eraseIdx index
        actorGroups := client.reportedGroups groups
        handshakeRan := true }
      (client.reportedGroups groups) with ⟨scope, active, finished, inScope, kept⟩
  refine ⟨scope, active, ?_, inScope, kept⟩
  rw [respond, sent]
  simp only [finishHandshake, finished]
  cases handshake with
  | called => simp [asked]
  | learning => simp [asked]
  | refreshing previous => rfl

end MembershipClient

/-! ## What is watched

Beside the client: the handshake in force at the last `subscribe`, if one had run, the groups the
caller chose there, what the handshakes reported since, and whether a refresh has completed. -/

structure WatchedClient where
  client : MembershipClient
  inForce : Option (List String)
  chosen : List String
  reports : List (List String)
  refreshed : Bool

inductive MembershipEvent where
  | subscribe (groupIds : List String)
  | unsubscribe
  | callHandshake
  | refreshMembership
  | fail (index : Nat)
  | respond (index : Nat) (groups : List HandshakeGroup)
  | resume (index : Nat)

namespace WatchedClient

def react (watched : WatchedClient) : MembershipEvent → WatchedClient
  | .subscribe groupIds => {
      client := watched.client.subscribe groupIds
      inForce := if watched.client.handshakeRan then some watched.client.actorGroups else none
      chosen := groupIds
      reports := []
      refreshed := false }
  | .unsubscribe => { watched with client := watched.client.unsubscribe }
  | .callHandshake => { watched with client := watched.client.callHandshake }
  | .refreshMembership => { watched with client := watched.client.refreshMembership }
  | .fail index => { watched with client := watched.client.fail index }
  | .respond index groups =>
      match watched.client.inFlight[index]? with
      | none => watched
      | some handshake => { watched with
          client := watched.client.respond index groups
          reports := watched.reports ++ [watched.client.reportedGroups groups]
          refreshed := watched.refreshed || handshake = .learning }
  | .resume index => { watched with
      client := watched.client.resume index
      refreshed := watched.refreshed || (watched.client.returned[index]?).isSome }

def start (appId : Option String) : WatchedClient where
  client := MembershipClient.create appId
  inForce := none
  chosen := []
  reports := []
  refreshed := false

def machine (appId : Option String) : Machine WatchedClient MembershipEvent where
  initial := start appId
  step := fun watched event => some (watched.react event)

/-- The handshake in force at the subscribe or a later one reported a group. -/
def Reported (watched : WatchedClient) (inForce : List String) (groupId : String) : Prop :=
  groupId ∈ inForce ∨ ∃ report ∈ watched.reports, groupId ∈ report

/-- The handshake in force at the subscribe or a later one did not report a group. -/
def Missed (watched : WatchedClient) (inForce : List String) (groupId : String) : Prop :=
  groupId ∉ inForce ∨ ∃ report ∈ watched.reports, groupId ∉ report

/-- The active subscription holds no group that was reported and no longer is, every group of the
latest handshake that was gained, and of the others those the caller chose. -/
def Holds (watched : WatchedClient) (gained : List String → String → Prop) : Prop :=
  ∀ inForce, watched.inForce = some inForce →
    ∀ groupIds, watched.client.activeSub = some groupIds → ∀ groupId,
      (groupId ∉ watched.client.actorGroups → watched.Reported inForce groupId →
        groupId ∉ groupIds) ∧
      (groupId ∈ watched.client.actorGroups → gained inForce groupId → groupId ∈ groupIds) ∧
      ((groupId ∈ watched.client.actorGroups ∧ ¬ gained inForce groupId) ∨
          (groupId ∉ watched.client.actorGroups ∧ ¬ watched.Reported inForce groupId) →
        (groupId ∈ groupIds ↔ groupId ∈ watched.chosen))

/-- A refresh has completed and no handshake is on its way. -/
def Settled (watched : WatchedClient) : Prop :=
  watched.refreshed = true ∧ watched.client.inFlight = [] ∧ watched.client.returned = []

/-- A settled subscription follows the membership, a group being gained when the handshake in
force at the subscribe did not report it. -/
def Follows (watched : WatchedClient) : Prop :=
  watched.Settled → watched.Holds fun inForce groupId => groupId ∉ inForce

/-- A settled subscription follows the membership, a group being gained when the handshake in
force at the subscribe or one since did not report it. -/
def FollowsGains (watched : WatchedClient) : Prop :=
  watched.Settled → watched.Holds watched.Missed

/-! ## When it follows -/

/-- A response compares with what was reported since the subscribe. A group that leaves is not in
the subscription, or leaves the app's scope, or is one this refresh has seen; a group that joins is
in the subscription already, or is one this refresh has not seen; and neither undoes what another
refresh is still to do. -/
structure ResponseMeets (watched : WatchedClient) (inForce groupIds : List String)
    (handshake : Handshake) (reported : List String) : Prop where
  compares : ∀ previous, handshake = .refreshing previous →
    previous = inForce ∨ previous ∈ watched.reports
  leaving : ∀ groupId ∈ watched.client.actorGroups, groupId ∉ reported →
    groupId ∉ groupIds ∨ watched.client.appId.isSome = true ∨
      ∃ previous, handshake = .refreshing previous ∧ groupId ∈ previous
  joining : ∀ groupId ∈ reported, groupId ∉ watched.client.actorGroups →
    groupId ∈ groupIds ∨ ∃ previous, handshake = .refreshing previous ∧ groupId ∉ previous
  stillAdded : ∀ delta ∈ watched.client.returned, ∀ groupId ∈ delta.added,
    groupId ∈ watched.client.actorGroups → groupId ∈ reported
  stillRemoved : ∀ delta ∈ watched.client.returned, ∀ groupId ∈ delta.removed,
    groupId ∈ reported → groupId ∈ watched.client.actorGroups

/-- What a refresh is still to do agrees with what a subscribe chooses, and every response to a
live subscription is one that it follows. -/
def StepMeets (watched : WatchedClient) : MembershipEvent → Prop
  | .subscribe groupIds => ∀ delta ∈ watched.client.returned,
      (∀ groupId ∈ delta.added, groupId ∈ groupIds) ∧
        ∀ groupId ∈ delta.removed, groupId ∉ groupIds
  | .respond index groups => ∀ handshake, watched.client.inFlight[index]? = some handshake →
      ∀ inForce, watched.inForce = some inForce →
        ∀ groupIds, watched.client.activeSub = some groupIds →
          watched.ResponseMeets inForce groupIds handshake (watched.client.reportedGroups groups)
  | _ => True

def Expected (watched : WatchedClient) (inForce : List String) (groupId : String) : Prop :=
  if groupId ∈ watched.client.actorGroups then
    ¬ watched.Missed inForce groupId → groupId ∈ watched.chosen
  else ¬ watched.Reported inForce groupId ∧ groupId ∈ watched.chosen

/-- The active subscription holds what it should, but for what refreshes are still to add and
remove. -/
structure Tracks (watched : WatchedClient) (inForce groupIds : List String) : Prop where
  known : ∀ groupId ∈ watched.client.actorGroups, watched.Reported inForce groupId
  ran : watched.client.handshakeRan = true
  added : ∀ delta ∈ watched.client.returned, ∀ groupId ∈ delta.added,
    watched.Expected inForce groupId
  removed : ∀ delta ∈ watched.client.returned, ∀ groupId ∈ delta.removed,
    ¬ watched.Expected inForce groupId
  others : ∀ groupId, (∀ delta ∈ watched.client.returned,
    groupId ∉ delta.added ∧ groupId ∉ delta.removed) →
      (groupId ∈ groupIds ↔ watched.Expected inForce groupId)

structure Invariant (watched : WatchedClient) : Prop where
  /-- With an app the scope is what the last handshake reported. -/
  scope : watched.client.handshakeRan = true → watched.client.appId.isSome = true →
    watched.client.inAppScope = watched.client.actorGroups
  tracks : ∀ inForce, watched.inForce = some inForce →
    ∀ groupIds, watched.client.activeSub = some groupIds → Tracks watched inForce groupIds

variable {watched : WatchedClient} {inForce groupIds : List String} {next : WatchedClient}
  {reported : List String} {groupId : String}

theorem Tracks.mem_iff (tracks : Tracks watched inForce groupIds)
    (done : watched.client.returned = []) (groupId : String)
    : groupId ∈ groupIds ↔ watched.Expected inForce groupId := by
  apply tracks.others
  rw [done]
  exact nofun

theorem Invariant.follows (invariant : Invariant watched) : FollowsGains watched := by
  intro settled inForce ran groupIds active groupId
  have holds := (invariant.tracks inForce ran groupIds active).mem_iff settled.2.2 groupId
  rw [Expected] at holds
  refine ⟨fun absent reported => ?_, fun present gained => ?_, fun other => ?_⟩
  · rw [holds, if_neg absent]
    exact fun expected => expected.1 reported
  · rw [holds, if_pos present]
    exact fun kept => absurd gained kept
  · rcases other with ⟨present, kept⟩ | ⟨absent, unreported⟩
    · rw [holds, if_pos present]
      exact ⟨fun chosen => chosen kept, fun chosen _ => chosen⟩
    · rw [holds, if_neg absent]
      exact and_iff_right unreported

/-! ## Every step keeps it -/

theorem Invariant.start (appId : Option String) : Invariant (start appId) where
  scope := nofun
  tracks := nofun

theorem Invariant.subscribe (invariant : Invariant watched)
    (meets : watched.StepMeets (.subscribe groupIds)) :
    Invariant (watched.react (.subscribe groupIds)) where
  scope := invariant.scope
  tracks := by
    intro inForce ran active same
    have handshaken : watched.client.handshakeRan = true := by
      by_contra never
      rw [react, if_neg never] at ran
      cases ran
    rw [react, if_pos handshaken] at ran
    cases ran
    cases same
    have chosen : ∀ groupId, (watched.react (.subscribe groupIds)).Expected
        watched.client.actorGroups groupId ↔ groupId ∈ groupIds := by
      intro groupId
      simp only [Expected, Missed, Reported, react, MembershipClient.subscribe]
      grind
    exact {
      known := fun groupId member => .inl member
      ran := handshaken
      added := fun delta member groupId gained =>
        (chosen groupId).mpr ((meets delta member).1 groupId gained)
      removed := fun delta member groupId lost expected =>
        (meets delta member).2 groupId lost ((chosen groupId).mp expected)
      others := fun groupId _ => (chosen groupId).symm }

theorem Invariant.inFlight (invariant : Invariant watched) (inFlight : List Handshake) :
    Invariant { watched with client := { watched.client with inFlight } } where
  scope := invariant.scope
  tracks := fun inForce ran groupIds active =>
    have tracks := invariant.tracks inForce ran groupIds active
    ⟨tracks.known, tracks.ran, tracks.added, tracks.removed, tracks.others⟩

theorem Invariant.unsubscribe (invariant : Invariant watched) :
    Invariant (watched.react .unsubscribe) where
  scope := invariant.scope
  tracks := nofun

structure Reports (watched next : WatchedClient) (reported : List String) : Prop where
  actorGroups : next.client.actorGroups = reported
  reports : next.reports = watched.reports ++ [reported]
  chosen : next.chosen = watched.chosen

theorem Reports.expected_unchanged (reports : Reports watched next reported)
    (unchanged : groupId ∈ reported ↔ groupId ∈ watched.client.actorGroups) :
    next.Expected inForce groupId ↔ watched.Expected inForce groupId := by
  simp only [Expected, Missed, Reported, reports.actorGroups, reports.reports, reports.chosen]
  grind

theorem Reports.expected_left (reports : Reports watched next reported)
    (known : watched.Reported inForce groupId) (left : groupId ∉ reported) :
    ¬ next.Expected inForce groupId := by
  simp only [Expected, reports.actorGroups, if_neg left, not_and]
  intro unreported
  apply absurd _ unreported
  simp only [Reported, reports.reports] at known ⊢
  grind

theorem Reports.expected_joined (reports : Reports watched next reported)
    (joined : groupId ∈ reported)
    (expected : watched.Missed inForce groupId ∨ groupId ∈ watched.chosen) :
    next.Expected inForce groupId := by
  simp only [Expected, reports.actorGroups, if_pos joined, reports.chosen]
  intro seen
  apply expected.resolve_left
  intro missed
  apply seen
  simp only [Missed, reports.reports] at missed ⊢
  grind

theorem Tracks.respond {before : List String} {handshake : Handshake}
    (tracks : Tracks watched inForce before)
    (meets : watched.ResponseMeets inForce before handshake reported)
    (reports : Reports watched next reported) (ran : next.client.handshakeRan = true)
    (returned : next.client.returned = watched.client.returned ++ MembershipClient.asked handshake
      reported)
    (members : ∀ groupId, groupId ∈ groupIds ↔ groupId ∈ before ∧ ¬ (watched.client.appId.isSome =
      true ∧ groupId ∈ watched.client.actorGroups ∧ groupId ∉ reported))
    : Tracks next inForce groupIds where
  known := by
    intro groupId member
    rw [reports.actorGroups] at member
    refine .inr ⟨reported, ?_, member⟩
    rw [reports.reports]
    exact List.mem_append_right _ List.mem_cons_self
  ran := ran
  added := by
    intro delta member groupId gained
    rw [returned, List.mem_append] at member
    rcases member with member | member
    · have expected := tracks.added delta member groupId gained
      by_cases present : groupId ∈ watched.client.actorGroups
      · have stays := meets.stillAdded delta member groupId gained present
        exact (reports.expected_unchanged (iff_of_true stays present)).mpr expected
      · by_cases joined : groupId ∈ reported
        · rw [Expected, if_neg present] at expected
          exact reports.expected_joined joined (.inr expected.2)
        · exact (reports.expected_unchanged (iff_of_false joined present)).mpr expected
    · rcases MembershipClient.asked_spec member with ⟨previous, refreshing, added, _⟩
      rcases (added groupId).mp gained with ⟨joined, unseen⟩
      apply reports.expected_joined joined
      rcases meets.compares previous refreshing with same | since
      · exact .inl (.inl (same ▸ unseen))
      · exact .inl (.inr ⟨previous, since, unseen⟩)
  removed := by
    intro delta member groupId lost
    rw [returned, List.mem_append] at member
    rcases member with member | member
    · have unexpected := tracks.removed delta member groupId lost
      by_cases present : groupId ∈ watched.client.actorGroups
      · by_cases stays : groupId ∈ reported
        · rwa [reports.expected_unchanged (iff_of_true stays present)]
        · exact reports.expected_left (tracks.known groupId present) stays
      · have absent := fun joined => present (meets.stillRemoved delta member groupId lost joined)
        rwa [reports.expected_unchanged (iff_of_false absent present)]
    · rcases MembershipClient.asked_spec member with ⟨previous, refreshing, _, removed⟩
      rcases (removed groupId).mp lost with ⟨seen, left⟩
      apply reports.expected_left _ left
      rcases meets.compares previous refreshing with same | since
      · exact .inl (same ▸ seen)
      · exact .inr ⟨previous, since, seen⟩
  others := by
    intro groupId unmentioned
    rw [members]
    simp only [returned, List.mem_append] at unmentioned
    have held := tracks.others groupId fun delta member => unmentioned delta (.inl member)
    have unasked : ∀ previous, handshake = .refreshing previous →
        ¬ (groupId ∈ reported ∧ groupId ∉ previous) ∧
          ¬ (groupId ∈ previous ∧ groupId ∉ reported) := by
      rintro previous rfl
      rcases @MembershipClient.asked_spec (.refreshing previous) reported _
        List.mem_cons_self with ⟨_, same, added, removed⟩
      cases same
      rw [← added, ← removed]
      exact unmentioned _ (.inr List.mem_cons_self)
    by_cases present : groupId ∈ watched.client.actorGroups
    · by_cases stays : groupId ∈ reported
      · rw [reports.expected_unchanged (iff_of_true stays present), ← held]
        exact and_iff_left fun left => left.2.2 stays
      · refine iff_of_false (fun still => ?_)
          (reports.expected_left (tracks.known groupId present) stays)
        rcases meets.leaving groupId present stays with unheld | app | ⟨previous, refreshing, seen⟩
        · exact unheld still.1
        · exact still.2 ⟨app, present, stays⟩
        · exact (unasked previous refreshing).2 ⟨seen, stays⟩
    · have kept : ¬ (watched.client.appId.isSome = true ∧
          groupId ∈ watched.client.actorGroups ∧ groupId ∉ reported) :=
        fun left => present left.2.1
      rw [and_iff_left kept]
      by_cases joined : groupId ∈ reported
      · rcases meets.joining groupId joined present with inside | ⟨previous, refreshing, unseen⟩
        · have expected := held.mp inside
          rw [Expected, if_neg present] at expected
          exact iff_of_true inside (reports.expected_joined joined (.inr expected.2))
        · exact absurd ⟨joined, unseen⟩ (unasked previous refreshing).1
      · rw [held, reports.expected_unchanged (iff_of_false joined present)]

theorem Invariant.respond {index : Nat} {groups : List HandshakeGroup}
    (invariant : Invariant watched) (meets : watched.StepMeets (.respond index groups)) :
    Invariant (watched.react (.respond index groups)) := by
  rw [react]
  cases sent : watched.client.inFlight[index]? with
  | none => exact invariant
  | some handshake =>
      rcases MembershipClient.respond_eq sent groups with ⟨scope, active, responded, inScope, kept⟩
      simp only [responded]
      constructor
      case scope => exact fun _ => inScope
      case tracks =>
        intro inForce ran groupIds same
        rcases kept groupIds same with ⟨before, held, members⟩
        have tracks := invariant.tracks inForce ran before held
        refine tracks.respond (meets handshake sent inForce ran before held) ⟨rfl, rfl, rfl⟩ rfl
          rfl fun groupId => ?_
        rw [members]
        by_cases app : watched.client.appId.isSome = true
        · rw [invariant.scope tracks.ran app]
        · simp [app]

theorem Tracks.resume {before : List String} {delta : MembershipDelta}
    (tracks : Tracks watched inForce before) (member : delta ∈ watched.client.returned)
    (same : next.client.actorGroups = watched.client.actorGroups ∧ next.client.handshakeRan =
      watched.client.handshakeRan ∧ next.reports = watched.reports ∧ next.chosen = watched.chosen)
    (returned : ∀ other, other ∈ next.client.returned → other ∈ watched.client.returned)
    (rest : ∀ other, other ∈ watched.client.returned → other = delta ∨ other ∈ next.client.returned)
    (members : ∀ groupId, groupId ∈ groupIds ↔ (groupId ∈ before ∧ groupId ∉ delta.removed) ∨
      groupId ∈ delta.added) :
    Tracks next inForce groupIds := by
  have expected : ∀ groupId, next.Expected inForce groupId ↔
      watched.Expected inForce groupId := by
    intro groupId
    simp only [Expected, Missed, Reported, same.1, same.2.2.1, same.2.2.2]
  constructor
  case known =>
    simp only [Reported, same.1, same.2.2.1]
    exact tracks.known
  case ran => exact same.2.1.trans tracks.ran
  case added =>
    intro other still groupId gained
    exact (expected groupId).mpr (tracks.added other (returned other still) groupId gained)
  case removed =>
    intro other still groupId lost
    rw [expected]
    exact tracks.removed other (returned other still) groupId lost
  case others =>
    intro groupId unmentioned
    rw [members, expected]
    by_cases gained : groupId ∈ delta.added
    · exact iff_of_true (.inr gained) (tracks.added delta member groupId gained)
    · rw [or_iff_left gained]
      by_cases lost : groupId ∈ delta.removed
      · exact iff_of_false (fun kept => kept.2 lost) (tracks.removed delta member groupId lost)
      · rw [and_iff_left lost]
        apply tracks.others
        intro other still
        rcases rest other still with rfl | later
        · exact ⟨gained, lost⟩
        · exact unmentioned other later

theorem Invariant.resume {index : Nat} (invariant : Invariant watched)
    : Invariant (watched.react (.resume index)) := by
  rw [react, MembershipClient.resume]
  cases waiting : watched.client.returned[index]? with
  | none =>
      exact ⟨invariant.scope, fun inForce ran groupIds active =>
        have tracks := invariant.tracks inForce ran groupIds active
        ⟨tracks.known, tracks.ran, tracks.added, tracks.removed, tracks.others⟩⟩
  | some delta =>
      rcases MembershipClient.reconcileLiveMembership_eq
          { watched.client with returned := watched.client.returned.eraseIdx index }
          delta.added delta.removed with ⟨active, reconciled, kept⟩
      simp only [reconciled]
      constructor
      case scope => exact invariant.scope
      case tracks =>
        intro inForce ran groupIds same
        rcases kept groupIds same with ⟨before, held, members⟩
        refine (invariant.tracks inForce ran before held).resume
          (List.mem_of_getElem? waiting) ⟨rfl, rfl, rfl, rfl⟩ ?_ ?_ members
        · exact fun other still => List.mem_of_mem_eraseIdx still
        · intro other member
          rcases List.mem_iff_getElem?.mp member with ⟨place, found⟩
          by_cases here : place = index
          · subst here
            exact .inl (Option.some.inj (found.symm.trans waiting))
          · exact .inr (List.mem_eraseIdx_iff_getElem?.mpr ⟨place, here, found⟩)

theorem Invariant.react {event : MembershipEvent} (invariant : Invariant watched)
    (meets : watched.StepMeets event) :
    Invariant (watched.react event) := by
  cases event with
  | subscribe groupIds => exact invariant.subscribe meets
  | unsubscribe => exact invariant.unsubscribe
  | callHandshake => exact invariant.inFlight _
  | refreshMembership => exact invariant.inFlight _
  | fail index => exact invariant.inFlight _
  | respond index groups => exact invariant.respond meets
  | resume index => exact invariant.resume

theorem follows_of_run {appId : Option String} {events : List MembershipEvent}
    {final : WatchedClient} (meets : (machine appId).Meets StepMeets (start appId) events)
    (reached : (machine appId).run (start appId) events = some final) : FollowsGains final := by
  have invariant := Machine.run_preserves (fun state event next invariant meets stepped =>
    Option.some.inj stepped ▸ Invariant.react invariant meets) (Invariant.start appId) meets reached
  exact invariant.follows

def groupsNamed (groupIds : List String) : List HandshakeGroup :=
  groupIds.map fun id => { id, apps := none }

/-- A refresh loses one group and gains another. -/
def movedEvents : List MembershipEvent :=
  [.callHandshake, .respond 0 (groupsNamed ["ada", "bob"]), .subscribe ["ada"], .refreshMembership,
    .respond 0 (groupsNamed ["bob", "cleo"]), .resume 0]

theorem follows_of_run_moved :
    ∃ final, (machine none).run (start none) movedEvents = some final ∧ final.Settled ∧
      final.client.activeSub = some ["cleo"] ∧ FollowsGains final := by
  refine ⟨_, rfl, ⟨rfl, rfl, rfl⟩, by decide, @follows_of_run none movedEvents _ ?_ rfl⟩
  refine ⟨trivial, fun _ called => ?_⟩
  cases called
  refine ⟨fun _ _ _ => nofun, fun _ learned => ?_⟩
  cases learned
  refine ⟨nofun, fun _ subscribed => ?_⟩
  cases subscribed
  refine ⟨trivial, fun _ asking => ?_⟩
  cases asking
  refine ⟨?_, fun _ _ => ⟨trivial, fun _ _ => trivial⟩⟩
  intro handshake sent inForce ran groupIds active
  cases sent
  cases ran
  cases active
  exact {
    compares := fun previous same => .inl (Handshake.refreshing.inj same).symm
    leaving := fun groupId member _ => .inr (.inr ⟨_, rfl, member⟩)
    joining := fun groupId _ absent => .inr ⟨_, rfl, absent⟩
    stillAdded := nofun
    stillRemoved := nofun }

/-- A group that the caller did not choose is lost and comes back. -/
def regainedEvents : List MembershipEvent :=
  [.callHandshake, .respond 0 (groupsNamed ["ada", "bob"]), .subscribe ["ada"],
    .refreshMembership, .respond 0 (groupsNamed ["ada"]), .resume 0,
    .refreshMembership, .respond 0 (groupsNamed ["ada", "bob"]), .resume 0]

/-- The application's own handshake is the one that finds a group gone. -/
def foundGoneEvents : List MembershipEvent :=
  [.callHandshake, .respond 0 (groupsNamed ["ada", "bob"]), .subscribe ["ada", "bob"],
    .callHandshake, .respond 0 (groupsNamed ["ada"]),
    .refreshMembership, .respond 0 (groupsNamed ["ada"]), .resume 0]

theorem regained_joins_foundGone_stays :
    (∃ final, (machine none).run (start none) regainedEvents = some final ∧ final.Settled ∧
      final.client.activeSub = some ["ada", "bob"] ∧ ¬ Follows final) ∧
    ∃ final, (machine none).run (start none) foundGoneEvents = some final ∧ final.Settled ∧
      final.client.actorGroups = ["ada"] ∧ final.client.activeSub = some ["ada", "bob"] ∧
        ¬ Follows final := by
  constructor
  · refine ⟨_, rfl, ⟨rfl, rfl, rfl⟩, by decide, fun follows => ?_⟩
    have chosen := (follows ⟨rfl, rfl, rfl⟩ _ rfl ["ada", "bob"] (by decide) "bob").2.2
      (.inl ⟨by decide, by decide⟩)
    exact absurd (chosen.mp (by decide)) (by decide)
  · refine ⟨_, rfl, ⟨rfl, rfl, rfl⟩, by decide, by decide, fun follows => ?_⟩
    have gone := (follows ⟨rfl, rfl, rfl⟩ _ rfl ["ada", "bob"] (by decide) "bob").1
      (by decide) (.inl (by decide))
    exact gone (by decide)

end WatchedClient

end Ebb.Sync
