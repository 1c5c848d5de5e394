import Ebb.Access.Scopes
import Ebb.Server.Committer
import Ebb.Sync.CatchUp
import Ebb.Sync.FanOutRouter

namespace Ebb.Sync.LiveDelivery

open Ebb.Server (StoredAction LogAction DurableAction GroupStore ActionHistory ActionScope.updatesForGroup
  ActionFormat.decode)
open Ebb.Server.RocksDB (decodeGroupActionKey encodeGroupActionKey)

/-! What the FanOutRouter pushes to each group: the groups of a GSN from the Writer's
notification or the group index, and the Updates the Action's scopes leave for each. -/

variable {U : Type}

abbrev GroupId := List UInt8

/-- The values of a list under consecutive GSNs. -/
def numbered {α : Type} : Nat → List α → List (Nat × α)
  | _, [] => []
  | gsn, value :: rest => (gsn, value) :: numbered (gsn + 1) rest

def addKey (fromGsn toGsn : Nat) (groups : List (Nat × List GroupId)) (key : List UInt8) :
    List (Nat × List GroupId) :=
  match decodeGroupActionKey key with
  | some (groupId, gsn) =>
      if fromGsn ≤ gsn ∧ gsn ≤ toGsn then
        setEntry gsn (groupId :: (groups.lookup gsn).getD []) groups
      else groups
  | none => groups

/-- The groups of each GSN in a range, from a pass over the group index. -/
def recoveredGroups (keys : List (List UInt8)) (fromGsn toGsn : Nat) : List (Nat × List GroupId) :=
  (keys.foldl (addKey fromGsn toGsn) []).map fun entry =>
    (entry.1, entry.2.foldl (fun sorted groupId => Server.putKey groupId sorted) [])

def actionGsns (store : GroupStore U) (fromGsn toGsn : Nat) : List Nat :=
  (List.range' fromGsn (toGsn + 1 - fromGsn)).filter fun gsn => (store.actions.lookup gsn).isSome

def committedRanges (store : GroupStore U) (fromGsn toGsn : Nat) : List GsnRange :=
  ((actionGsns store fromGsn toGsn).foldl Recovery.foldGsnIntoRange []).reverse

def putNewGroups (groups : List (Nat × List GroupId)) (gsn : Nat) : List (Nat × List GroupId) :=
  if (groups.lookup gsn).isSome then groups else setEntry gsn [] groups

def rangeGsns (range : GsnRange) : List Nat :=
  List.range' range.1 (range.2 + 1 - range.1)

def fillMissingGroups (ranges : List GsnRange) (groupsByGsn : List (Nat × List GroupId)) :
    List (Nat × List GroupId) :=
  ranges.foldl (fun groups range => (rangeGsns range).foldl putNewGroups groups) groupsByGsn

/-! ## The Router -/

/-- What the Router keeps of the ranges that wait. -/
structure LiveRouter (U : Type) where
  plan : Plan
  pendingGroups : List (Nat × List GroupId)
  /-- The payloads that came with a range. -/
  batchMeta : List (GsnRange × List (StoredAction U))

def carriedActions (batchMeta : List (GsnRange × List (StoredAction U))) (range : GsnRange) :
    Option (List (LogAction U)) :=
  (batchMeta.lookup range).bind fun payloads =>
    if payloads.length = range.2 + 1 - range.1 then
      some ((numbered range.1 payloads).map fun entry => ActionFormat.decode entry.2 entry.1)
    else none

def readLogActions (store : GroupStore U) (range : GsnRange) : List (LogAction U) :=
  (rangeGsns range).filterMap fun gsn =>
    (store.actions.lookup gsn).map fun stored => ActionFormat.decode stored gsn

/-- The groups an Action is pushed to, each with its part of the Action. A GSN nobody
annotated is resolved from the caches. -/
def groupMemberships (resolveGroupIds : LogAction U → List GroupId)
    (groupsByGsn : List (Nat × List GroupId)) (action : LogAction U) :
    List (GroupId × LogAction U) :=
  ((groupsByGsn.lookup action.gsn).getD (resolveGroupIds action)).flatMap fun groupId =>
    match ActionScope.updatesForGroup action groupId with
    | [] => []
    | updates => [(groupId, { action with updates })]

def pushGsnRange (resolveGroupIds : LogAction U → List GroupId) (store : GroupStore U)
    (state : LiveRouter U) (range : GsnRange) : List (GroupId × LogAction U) :=
  ((carriedActions state.batchMeta range).getD (readLogActions store range)).flatMap
    (groupMemberships resolveGroupIds state.pendingGroups)

/-- One life of the Router process: what it keeps, the ranges it has pushed and what it
has delivered. -/
structure RouterLife (U : Type) where
  state : LiveRouter U
  pushed : List GsnRange
  delivered : List (GroupId × LogAction U)

def pushesGsn (toPush : List GsnRange) (gsn : Nat) : Bool :=
  toPush.any fun range => decide (range.1 ≤ gsn) && decide (gsn ≤ range.2)

def pushAndUpdate (resolveGroupIds : LogAction U → List GroupId) (store : GroupStore U)
    (life : RouterLife U) (toPush : List GsnRange) : RouterLife U where
  state :=
    { life.state with
      pendingGroups := life.state.pendingGroups.filter fun entry => !pushesGsn toPush entry.1
      batchMeta := life.state.batchMeta.filter fun entry => entry.1 ∉ toPush }
  pushed := life.pushed ++ toPush
  delivered := life.delivered ++ toPush.flatMap (pushGsnRange resolveGroupIds store life.state)

def drain (resolveGroupIds : LogAction U → List GroupId) (store : GroupStore U) (life : RouterLife U)
    (drained : List GsnRange × Plan) : RouterLife U :=
  pushAndUpdate resolveGroupIds store { life with state := { life.state with plan := drained.2 } }
    drained.1

/-- How a life of the Router begins. -/
inductive Start (U : Type) where
  | cold (watermark : Nat)
  /-- The frontier it resumes from, the durable rows it finds and the watermark. -/
  | resume (lastPushedGsn : Nat) (rows : ActionHistory U) (watermark : Nat)

def lastGsn (store : GroupStore U) : Nat := (store.actions.map Prod.fst).foldr max 0

def recovered (lastPushedGsn : Nat) (found : GroupStore U) : RouterLife U :=
  let maxGsn := lastGsn found
  let ranges :=
    if maxGsn > lastPushedGsn then committedRanges found (lastPushedGsn + 1) maxGsn else []
  let groups :=
    if maxGsn > lastPushedGsn then
      fillMissingGroups ranges (recoveredGroups found.groupActions (lastPushedGsn + 1) maxGsn)
    else []
  { state := { plan := .new ranges lastPushedGsn, pendingGroups := groups, batchMeta := [] }
    pushed := []
    delivered := [] }

def begin (resolveGroupIds : LogAction U → List GroupId) (store : GroupStore U) :
    Start U → RouterLife U
  | .cold watermark =>
      { state := { plan := .new [] watermark, pendingGroups := [], batchMeta := [] }
        pushed := []
        delivered := [] }
  | .resume lastPushedGsn rows watermark =>
      drain resolveGroupIds store (recovered lastPushedGsn (rows.store watermark))
        ((recovered lastPushedGsn (rows.store watermark)).state.plan.splitPushable watermark)

inductive Notice (U : Type) where
  /-- A committed range from its first GSN on, with the Actions in claim order. -/
  | batchCommitted (fromGsn : Nat) (actions : List (DurableAction U))
  | rangeResolved (range : GsnRange)

def handleInfo (resolveGroupIds : LogAction U → List GroupId) (store : GroupStore U)
    (life : RouterLife U) (input : Notice U × Nat) : RouterLife U :=
  match input.1 with
  | .batchCommitted fromGsn actions =>
      let range : GsnRange := (fromGsn, fromGsn + actions.length - 1)
      let groups := (numbered fromGsn actions).foldl
        (fun groups entry => setEntry entry.1 entry.2.groups groups) life.state.pendingGroups
      drain resolveGroupIds store
        { life with
          state := { life.state with
            pendingGroups := groups
            batchMeta := setEntry range (actions.map DurableAction.frame) life.state.batchMeta } }
        (life.state.plan.processBatch range.1 range.2 input.2)
  | .rangeResolved range =>
      drain resolveGroupIds store
        { life with
          state := { life.state with
            pendingGroups := life.state.pendingGroups.filter fun entry =>
              !(decide (range.1 ≤ entry.1) && decide (entry.1 ≤ range.2))
            batchMeta := life.state.batchMeta.filter fun entry => entry.1 ≠ range } }
        ((life.state.plan.resolve range).splitPushable input.2)

def run (resolveGroupIds : LogAction U → List GroupId) (store : GroupStore U) (start : Start U)
    (inputs : List (Notice U × Nat)) : RouterLife U :=
  inputs.foldl (handleInfo resolveGroupIds store) (begin resolveGroupIds store start)

/-! ## What a life is told -/

def Start.watermark : Start U → Nat
  | .cold watermark => watermark
  | .resume _ _ watermark => watermark

/-- The ranges a start finds in the log. -/
def Start.ranges : Start U → List GsnRange
  | .cold _ => []
  | .resume lastPushedGsn rows watermark =>
      (recovered lastPushedGsn (rows.store watermark)).state.plan.pendingNotifications

def Notice.ranges : Notice U → List GsnRange
  | .batchCommitted fromGsn actions => [(fromGsn, fromGsn + actions.length - 1)]
  | .rangeResolved _ => []

def announced (start : Start U) (inputs : List (Notice U × Nat)) : List GsnRange :=
  start.ranges ++ inputs.flatMap fun input => input.1.ranges

/-- The watermark that the latest message read. -/
def lastSeen (start : Start U) (inputs : List (Notice U × Nat)) : Nat :=
  inputs.foldl (fun _ input => input.2) start.watermark

theorem mem_numbered {α : Type} {start gsn : Nat} {values : List α} {value : α} :
    (gsn, value) ∈ numbered start values ↔ start ≤ gsn ∧ values[gsn - start]? = some value := by
  induction values generalizing start with
  | nil => simp [numbered]
  | cons head rest induction =>
      rw [numbered, List.mem_cons, induction, Prod.mk.injEq]
      by_cases here : gsn = start
      · subst here
        simp [eq_comm]
      · constructor
        · rintro (⟨equal, _⟩ | ⟨above, found⟩)
          · exact absurd equal here
          · have shift : gsn - start = (gsn - (start + 1)) + 1 := by omega
            rw [shift, List.getElem?_cons_succ]
            exact ⟨by omega, found⟩
        · rintro ⟨above, found⟩
          have shift : gsn - start = (gsn - (start + 1)) + 1 := by omega
          rw [shift, List.getElem?_cons_succ] at found
          exact .inr ⟨by omega, found⟩

theorem exists_mem_numbered {α : Type} {start gsn : Nat} {values : List α} (above : start ≤ gsn)
    (below : gsn < start + values.length) : ∃ value, (gsn, value) ∈ numbered start values :=
  ⟨values[gsn - start], mem_numbered.mpr ⟨above, List.getElem?_eq_getElem (by omega)⟩⟩

theorem numbered_map {α β : Type} (change : α → β) (start : Nat) (values : List α) :
    numbered start (values.map change) =
      (numbered start values).map fun entry => (entry.1, change entry.2) := by
  induction values generalizing start with
  | nil => rfl
  | cons head rest induction => rw [List.map_cons, numbered, numbered, List.map_cons, induction]

/-! ## Plans -/

variable {range : GsnRange}

theorem mem_splitPushable {plan : Plan} {watermark : Nat} :
    range ∈ (plan.splitPushable watermark).1 ∨
        range ∈ (plan.splitPushable watermark).2.pendingNotifications ↔
      range ∈ plan.pendingNotifications := by
  conv_rhs => rw [← @Plan.takeReleasable_append plan.acked watermark plan.pendingNotifications]
  rw [List.mem_append]
  rfl

theorem resolved_splitPushable {plan : Plan} {watermark : Nat}
    (released : range ∈ (plan.splitPushable watermark).1) : range.2 ≤ watermark := by
  have general : ∀ ranges : List GsnRange,
      ∀ range ∈ (Plan.takeReleasable plan.acked watermark ranges).1, range.2 ≤ watermark := by
    intro ranges
    induction ranges with
    | nil => exact nofun
    | cons head rest induction =>
        intro range member
        rw [Plan.takeReleasable] at member
        split at member
        · next releasable =>
            rcases List.mem_cons.mp member with equal | later
            · exact equal ▸ releasable.1
            · exact induction range later
        · cases member
  exact general plan.pendingNotifications range released

/-! ## The recovered groups -/

theorem lookup_map_snd {α β γ : Type} [BEq α] (change : β → γ) (key : α)
    (entries : List (α × β)) :
    (entries.map fun entry => (entry.1, change entry.2)).lookup key =
      (entries.lookup key).map change := by
  induction entries with
  | nil => rfl
  | cons entry rest induction =>
      rw [List.map_cons, List.lookup_cons, List.lookup_cons, induction]
      cases key == entry.1 <;> rfl

/-- A group index key read back as a row of a GSN in the range. -/
def RowOf (fromGsn toGsn gsn : Nat) (groupId : GroupId) (key : List UInt8) : Prop :=
  decodeGroupActionKey key = some (groupId, gsn) ∧ fromGsn ≤ gsn ∧ gsn ≤ toGsn

theorem getD_addKey (fromGsn toGsn : Nat) (key : List UInt8)
    (groups : List (Nat × List GroupId)) (gsn : Nat) (groupId : GroupId) :
    groupId ∈ ((addKey fromGsn toGsn groups key).lookup gsn).getD [] ↔
      RowOf fromGsn toGsn gsn groupId key ∨ groupId ∈ (groups.lookup gsn).getD [] := by
  rw [addKey, RowOf]
  cases decodeGroupActionKey key with
  | none => simp
  | some row =>
      rcases row with ⟨rowGroup, rowGsn⟩
      dsimp only
      split
      · next within =>
          rw [lookup_setEntry]
          by_cases same : gsn = rowGsn
          · subst same
            simp [within, eq_comm]
          · have different : rowGsn ≠ gsn := fun equal => same equal.symm
            simp [same, different]
      · next outside =>
          have notRow : ¬ (some (rowGroup, rowGsn) = some (groupId, gsn) ∧
              fromGsn ≤ gsn ∧ gsn ≤ toGsn) := by
            rintro ⟨equal, within⟩
            cases equal
            exact outside within
          rw [or_iff_right notRow]

theorem isSome_addKey (fromGsn toGsn : Nat) (key : List UInt8)
    (groups : List (Nat × List GroupId)) (gsn : Nat) :
    ((addKey fromGsn toGsn groups key).lookup gsn).isSome = true ↔
      (∃ groupId, RowOf fromGsn toGsn gsn groupId key) ∨ (groups.lookup gsn).isSome = true := by
  rw [addKey]
  simp only [RowOf]
  cases decodeGroupActionKey key with
  | none => simp
  | some row =>
      rcases row with ⟨rowGroup, rowGsn⟩
      dsimp only
      split
      · next within =>
          rw [lookup_setEntry]
          by_cases same : gsn = rowGsn
          · subst same
            simp [within]
          · have different : rowGsn ≠ gsn := fun equal => same equal.symm
            simp [same, different]
      · next outside =>
          have notRow : ¬ ∃ groupId, some (rowGroup, rowGsn) = some (groupId, gsn) ∧
              fromGsn ≤ gsn ∧ gsn ≤ toGsn := by
            rintro ⟨groupId, equal, within⟩
            cases equal
            exact outside within
          rw [or_iff_right notRow]

theorem mem_recoveredGroups (keys : List (List UInt8)) (fromGsn toGsn gsn : Nat)
    (groupId : GroupId) :
    groupId ∈ ((recoveredGroups keys fromGsn toGsn).lookup gsn).getD [] ↔
      ∃ key ∈ keys, RowOf fromGsn toGsn gsn groupId key := by
  have passed : ∀ groups, groupId ∈ ((keys.foldl (addKey fromGsn toGsn) groups).lookup gsn).getD [] ↔
      (∃ key ∈ keys, RowOf fromGsn toGsn gsn groupId key) ∨
        groupId ∈ (groups.lookup gsn).getD [] := by
    induction keys with
    | nil => simp
    | cons key rest induction =>
        intro groups
        rw [List.foldl_cons, induction, getD_addKey, List.exists_mem_cons_iff, or_assoc]
        exact or_left_comm
  have ordered : ∀ groups : List GroupId,
      groupId ∈ groups.foldl (fun sorted groupId => Server.putKey groupId sorted) [] ↔
        groupId ∈ groups := by
    intro groups
    have general : ∀ sorted : List GroupId,
        groupId ∈ groups.foldl (fun sorted groupId => Server.putKey groupId sorted) sorted ↔
          groupId ∈ groups ∨ groupId ∈ sorted := by
      induction groups with
      | nil => simp
      | cons head rest induction =>
          intro sorted
          rw [List.foldl_cons, induction, Server.mem_putKey, List.mem_cons, or_assoc]
          exact or_left_comm
    rw [general, or_iff_left List.not_mem_nil]
  rw [recoveredGroups, lookup_map_snd]
  cases found : (keys.foldl (addKey fromGsn toGsn) []).lookup gsn with
  | none =>
      have empty := passed []
      rw [found] at empty
      simpa using empty
  | some groups =>
      have listed := passed []
      rw [found] at listed
      rw [Option.map_some, Option.getD_some, ordered]
      simpa using listed

theorem isSome_recoveredGroups (keys : List (List UInt8)) (fromGsn toGsn gsn : Nat) :
    ((recoveredGroups keys fromGsn toGsn).lookup gsn).isSome = true ↔
      ∃ groupId, ∃ key ∈ keys, RowOf fromGsn toGsn gsn groupId key := by
  have passed : ∀ groups, ((keys.foldl (addKey fromGsn toGsn) groups).lookup gsn).isSome = true ↔
      (∃ groupId, ∃ key ∈ keys, RowOf fromGsn toGsn gsn groupId key) ∨
        (groups.lookup gsn).isSome = true := by
    induction keys with
    | nil => simp
    | cons key rest induction =>
        intro groups
        simp only [List.foldl_cons, induction, isSome_addKey, List.exists_mem_cons_iff, exists_or,
          or_assoc]
        exact or_left_comm
  rw [recoveredGroups, lookup_map_snd, Option.isSome_map, passed]
  simp

theorem lookup_putNewGroups (groups : List (Nat × List GroupId)) (added gsn : Nat) :
    (putNewGroups groups added).lookup gsn =
      (groups.lookup gsn).or (if gsn = added then some [] else none) := by
  rw [putNewGroups]
  split
  · next known =>
      by_cases same : gsn = added
      · subst same
        rcases Option.isSome_iff_exists.mp known with ⟨value, found⟩
        rw [found, Option.some_or]
      · rw [if_neg same, Option.or_none]
  · next unknown =>
      rw [lookup_setEntry]
      by_cases same : gsn = added
      · subst same
        have missing : groups.lookup gsn = none := Option.not_isSome_iff_eq_none.mp unknown
        rw [if_pos rfl, missing, Option.none_or, if_pos rfl]
      · rw [if_neg same, if_neg same, Option.or_none]

theorem lookup_fillMissingGroups (ranges : List GsnRange) (groupsByGsn : List (Nat × List GroupId))
    (gsn : Nat) :
    (fillMissingGroups ranges groupsByGsn).lookup gsn =
      (groupsByGsn.lookup gsn).or (if gsn ∈ ranges.flatMap rangeGsns then some [] else none) := by
  have general : ∀ (gsns : List Nat) (groups : List (Nat × List GroupId)),
      (gsns.foldl putNewGroups groups).lookup gsn =
        (groups.lookup gsn).or (if gsn ∈ gsns then some [] else none) := by
    intro gsns
    induction gsns with
    | nil => simp
    | cons head rest induction =>
        intro groups
        rw [List.foldl_cons, induction, lookup_putNewGroups, Option.or_assoc]
        congr 1
        by_cases same : gsn = head
        · simp [same]
        · simp [same]
  rw [fillMissingGroups, ← List.foldl_flatMap, general]

theorem mem_rangeGsns {gsn : Nat} : gsn ∈ rangeGsns range ↔ range.Covers gsn := by
  rw [rangeGsns, List.mem_range'_1]
  simp only [GsnRange.Covers]
  omega

theorem mem_scopedUpdates {updates : List U} {scopes : List (List GroupId)} {groupId : GroupId}
    {update : U} :
    update ∈ Server.ActionScope.scopedUpdates updates scopes groupId ↔
      ∃ groupIds, (update, groupIds) ∈ updates.zip scopes ∧ groupId ∈ groupIds := by
  rw [Server.ActionScope.scopedUpdates, List.mem_flatMap]
  constructor
  · rintro ⟨⟨other, groupIds⟩, listed, member⟩
    dsimp only at member
    split at member
    · next inScope =>
        rw [List.mem_singleton] at member
        exact ⟨groupIds, member ▸ listed, inScope⟩
    · cases member
  · rintro ⟨groupIds, listed, inScope⟩
    exact ⟨(update, groupIds), listed, by simp [inScope]⟩

theorem updatesForGroup_frame (action : DurableAction U) (gsn : Nat) (groupId : GroupId) :
    ActionScope.updatesForGroup (ActionFormat.decode action.frame gsn) groupId =
      Server.ActionScope.scopedUpdates action.updates action.updateScopes groupId := by
  rw [ActionScope.updatesForGroup]
  exact if_pos action.length_updateScopes

theorem mem_groups_of_scoped {action : DurableAction U} {gsn : Nat} {groupId : GroupId}
    (updates : (CatchUp.scopedCopy action.frame gsn groupId).updates ≠ []) :
    groupId ∈ action.groups := by
  rw [CatchUp.scopedCopy, updatesForGroup_frame] at updates
  rcases List.exists_mem_of_ne_nil _ updates with ⟨update, member⟩
  rcases mem_scopedUpdates.mp member with ⟨groupIds, listed, inScope⟩
  exact DurableAction.mem_groups.mpr ⟨groupIds, (List.of_mem_zip listed).2, inScope⟩

/-! ## One push -/

section Push

variable {history : ActionHistory U} {watermark : Nat}
  {resolveGroupIds : LogAction U → List GroupId} {state : LiveRouter U}

/-- The payloads that wait are those of committed Actions. -/
def PayloadsCommitted (history : ActionHistory U)
    (batchMeta : List (GsnRange × List (StoredAction U))) : Prop :=
  ∀ range payloads, batchMeta.lookup range = some payloads →
    ∀ gsn stored, (gsn, stored) ∈ numbered range.1 payloads →
      ∃ action, (gsn, action) ∈ history.entries ∧ stored = action.frame

def rangeActions (store : GroupStore U) (state : LiveRouter U) (range : GsnRange) :
    List (LogAction U) :=
  (carriedActions state.batchMeta range).getD (readLogActions store range)

variable {range : GsnRange} {action : LogAction U} {groupsByGsn : List (Nat × List GroupId)}
  {push : GroupId × LogAction U}

theorem mem_readLogActions (member : action ∈ readLogActions (history.store watermark) range) :
    range.Covers action.gsn ∧ ∃ durable, (action.gsn, durable) ∈ history.entries ∧
      action = ActionFormat.decode durable.frame action.gsn := by
  rcases List.mem_filterMap.mp member with ⟨gsn, inRange, found⟩
  rcases Option.map_eq_some_iff.mp found with ⟨stored, held, rfl⟩
  rcases (history.lookup_actions watermark gsn stored).mp held with ⟨durable, logged, rfl⟩
  exact ⟨mem_rangeGsns.mp inRange, durable, logged, rfl⟩

theorem mem_rangeActions (payloads : PayloadsCommitted history state.batchMeta)
    (member : action ∈ rangeActions (history.store watermark) state range) :
    range.Covers action.gsn ∧ ∃ durable, (action.gsn, durable) ∈ history.entries ∧
      action = ActionFormat.decode durable.frame action.gsn := by
  rw [rangeActions, carriedActions] at member
  cases found : state.batchMeta.lookup range with
  | none =>
      rw [found] at member
      exact mem_readLogActions member
  | some carried =>
      rw [found, Option.bind_some] at member
      split at member
      · next complete =>
          rw [Option.getD_some, List.mem_map] at member
          rcases member with ⟨⟨gsn, stored⟩, listed, rfl⟩
          rcases payloads range carried found gsn stored listed with ⟨durable, logged, rfl⟩
          rcases mem_numbered.mp listed with ⟨above, held⟩
          have short := (List.getElem?_eq_some_iff.mp held).1
          have below : gsn ≤ range.2 := by omega
          exact ⟨⟨above, below⟩, durable, logged, rfl⟩
      · exact mem_readLogActions member

theorem rangeActions_complete (payloads : PayloadsCommitted history state.batchMeta) {gsn : Nat}
    (covers : range.Covers gsn) {durable : DurableAction U}
    (logged : (gsn, durable) ∈ history.entries) :
    ActionFormat.decode durable.frame gsn ∈
      rangeActions (history.store watermark) state range := by
  rcases covers with ⟨above, below⟩
  have read : ActionFormat.decode durable.frame gsn ∈
      readLogActions (history.store watermark) range := by
    apply List.mem_filterMap.mpr
    refine ⟨gsn, mem_rangeGsns.mpr ⟨above, below⟩, ?_⟩
    rw [(history.lookup_actions watermark gsn durable.frame).mpr ⟨durable, logged, rfl⟩]
    rfl
  rw [rangeActions, carriedActions]
  cases found : state.batchMeta.lookup range with
  | none => exact read
  | some carried =>
      rw [Option.bind_some]
      split
      · next complete =>
          rw [Option.getD_some, List.mem_map]
          rcases @exists_mem_numbered _ range.1 gsn carried above (by omega) with
            ⟨stored, listed⟩
          rcases payloads range carried found gsn stored listed with ⟨other, otherLogged, rfl⟩
          rw [history.action_unique logged otherLogged]
          exact ⟨_, listed, rfl⟩
      · exact read

theorem mem_groupMemberships (member : push ∈ groupMemberships resolveGroupIds groupsByGsn action) :
    ActionScope.updatesForGroup action push.1 ≠ [] ∧
      push.2 = { action with updates := ActionScope.updatesForGroup action push.1 } := by
  rcases List.mem_flatMap.mp member with ⟨groupId, _, pushed⟩
  cases part : ActionScope.updatesForGroup action groupId with
  | nil =>
      rw [part] at pushed
      cases pushed
  | cons update rest =>
      rw [part] at pushed
      rw [List.mem_singleton.mp pushed, part]
      exact ⟨List.cons_ne_nil _ _, rfl⟩

theorem groupMemberships_complete {groups : List GroupId} {groupId : GroupId}
    (annotated : groupsByGsn.lookup action.gsn = some groups) (listed : groupId ∈ groups)
    (updates : ActionScope.updatesForGroup action groupId ≠ []) :
    (groupId, { action with updates := ActionScope.updatesForGroup action groupId }) ∈
      groupMemberships resolveGroupIds groupsByGsn action := by
  rw [groupMemberships, annotated, Option.getD_some]
  apply List.mem_flatMap.mpr
  refine ⟨groupId, listed, ?_⟩
  split
  · next empty => exact absurd empty updates
  · exact List.mem_cons_self

theorem mem_pushGsnRange (payloads : PayloadsCommitted history state.batchMeta)
    (member : push ∈ pushGsnRange resolveGroupIds (history.store watermark) state range) :
    range.Covers push.2.gsn ∧ ∃ durable, (push.2.gsn, durable) ∈ history.entries ∧
      (CatchUp.scopedCopy durable.frame push.2.gsn push.1).updates ≠ [] ∧
      push.2 = CatchUp.scopedCopy durable.frame push.2.gsn push.1 := by
  rcases List.mem_flatMap.mp member with ⟨action, inRange, pushed⟩
  rcases mem_rangeActions payloads inRange with ⟨covers, durable, logged, equal⟩
  have parts := mem_groupMemberships pushed
  have gsn : push.2.gsn = action.gsn := by rw [parts.2]
  rw [equal] at parts
  rw [gsn]
  exact ⟨covers, durable, logged, parts.1, parts.2⟩

theorem pushGsnRange_complete (payloads : PayloadsCommitted history state.batchMeta) {gsn : Nat}
    (covers : range.Covers gsn) {durable : DurableAction U}
    (logged : (gsn, durable) ∈ history.entries) {groups : List GroupId}
    (annotated : state.pendingGroups.lookup gsn = some groups)
    (right : ∀ groupId, groupId ∈ groups ↔ groupId ∈ durable.groups) {groupId : GroupId}
    (updates : (CatchUp.scopedCopy durable.frame gsn groupId).updates ≠ []) :
    (groupId, CatchUp.scopedCopy durable.frame gsn groupId) ∈
      pushGsnRange resolveGroupIds (history.store watermark) state range := by
  apply List.mem_flatMap.mpr
  refine ⟨ActionFormat.decode durable.frame gsn, rangeActions_complete payloads covers logged, ?_⟩
  exact groupMemberships_complete annotated ((right groupId).mpr (mem_groups_of_scoped updates))
    updates

end Push

/-! ## One life of the Router -/

/-- Every range that waits is committed, and the groups of its GSNs are known unless they
were pushed before; what was delivered is what the scopes leave of committed Actions at
or below the watermark. -/
structure Annotated (history : ActionHistory U) (watermark : Nat) (life : RouterLife U) :
    Prop where
  payloads : PayloadsCommitted history life.state.batchMeta
  right : ∀ gsn groups, life.state.pendingGroups.lookup gsn = some groups →
    ∀ action, (gsn, action) ∈ history.entries →
      ∀ groupId, groupId ∈ groups ↔ groupId ∈ action.groups
  durable : ∀ range ∈ life.state.plan.pendingNotifications, ∀ gsn, range.Covers gsn →
    ∃ action, (gsn, action) ∈ history.entries
  known : ∀ range ∈ life.state.plan.pendingNotifications, ∀ gsn, range.Covers gsn →
    (life.state.pendingGroups.lookup gsn).isSome = true ∨
      ∃ earlier ∈ life.pushed, earlier.Covers gsn
  resolved : ∀ range ∈ life.pushed, range.2 ≤ watermark
  sound : ∀ push ∈ life.delivered, (∃ range ∈ life.pushed, range.Covers push.2.gsn) ∧
    ∃ action, (push.2.gsn, action) ∈ history.entries ∧
      (CatchUp.scopedCopy action.frame push.2.gsn push.1).updates ≠ [] ∧
      push.2 = CatchUp.scopedCopy action.frame push.2.gsn push.1
  complete : ∀ range ∈ life.pushed, ∀ gsn, range.Covers gsn → ∀ action,
    (gsn, action) ∈ history.entries → ∀ groupId,
      (CatchUp.scopedCopy action.frame gsn groupId).updates ≠ [] →
        (groupId, CatchUp.scopedCopy action.frame gsn groupId) ∈ life.delivered

section Life

variable {history : ActionHistory U} {watermark : Nat}
  {resolveGroupIds : LogAction U → List GroupId} {life : RouterLife U}

theorem lookup_range {α : Type} (range : GsnRange) (entries : List (GsnRange × α)) :
    entries.lookup range = @List.lookup GsnRange α instBEqOfDecidableEq range entries := by
  rw [lawful_beq_subsingleton (instBEqProd : BEq GsnRange) instBEqOfDecidableEq]

variable {gsn fromGsn : Nat} {rows : ActionHistory U} {seen : Nat} (store : GroupStore U)

theorem lookup_batchMeta_drain (life : RouterLife U) (drained : List GsnRange × Plan)
    (range : GsnRange) :
    (drain resolveGroupIds store life drained).state.batchMeta.lookup range =
      if decide (range ∉ drained.1) then life.state.batchMeta.lookup range else none := by
  rw [lookup_range, lookup_range]
  exact lookup_filter_keys (fun range => decide (range ∉ drained.1)) life.state.batchMeta range

theorem pushesGsn_iff {toPush : List GsnRange} :
    pushesGsn toPush gsn = true ↔ ∃ range ∈ toPush, range.Covers gsn := by
  simp [pushesGsn, GsnRange.Covers]

theorem lookup_pendingGroups_drain (life : RouterLife U) (drained : List GsnRange × Plan)
    (gsn : Nat) :
    (drain resolveGroupIds store life drained).state.pendingGroups.lookup gsn =
      if !pushesGsn drained.1 gsn then life.state.pendingGroups.lookup gsn else none :=
  lookup_filter_keys (fun gsn => !pushesGsn drained.1 gsn) life.state.pendingGroups gsn

theorem annotated_drain (annotated : Annotated history watermark life)
    {drained : List GsnRange × Plan}
    (taken : ∀ range, range ∈ drained.1 ∨ range ∈ drained.2.pendingNotifications →
      range ∈ life.state.plan.pendingNotifications)
    (released : ∀ range ∈ drained.1, range.2 ≤ watermark) :
    Annotated history watermark
      (drain resolveGroupIds (history.store watermark) life drained) where
  payloads := by
    intro range payloads found
    rw [lookup_batchMeta_drain] at found
    split at found
    · exact annotated.payloads range payloads found
    · cases found
  right := by
    intro gsn groups found
    rw [lookup_pendingGroups_drain] at found
    split at found
    · exact annotated.right gsn groups found
    · cases found
  durable := fun range waits => annotated.durable range (taken range (.inr waits))
  known := by
    intro range waits gsn covers
    rcases annotated.known range (taken range (.inr waits)) gsn covers with
      noted | ⟨earlier, pushed, coversEarlier⟩
    · rw [lookup_pendingGroups_drain]
      cases dropped : pushesGsn drained.1 gsn with
      | false => exact .inl noted
      | true =>
          rcases pushesGsn_iff.mp dropped with ⟨now, inPush, within⟩
          exact .inr ⟨now, List.mem_append_right _ inPush, within⟩
    · exact .inr ⟨earlier, List.mem_append_left _ pushed, coversEarlier⟩
  resolved := by
    intro range member
    rcases List.mem_append.mp member with earlier | now
    · exact annotated.resolved range earlier
    · exact released range now
  sound := by
    intro push member
    rcases List.mem_append.mp member with earlier | now
    · rcases annotated.sound push earlier with ⟨⟨range, pushed, covers⟩, copy⟩
      exact ⟨⟨range, List.mem_append_left _ pushed, covers⟩, copy⟩
    · rcases List.mem_flatMap.mp now with ⟨range, inPush, pushed⟩
      rcases mem_pushGsnRange annotated.payloads pushed with ⟨covers, copy⟩
      exact ⟨⟨range, List.mem_append_right _ inPush, covers⟩, copy⟩
  complete := by
    intro range member gsn covers action logged groupId updates
    rcases List.mem_append.mp member with earlier | now
    · exact List.mem_append_left _
        (annotated.complete range earlier gsn covers action logged groupId updates)
    · rcases annotated.known range (taken range (.inl now)) gsn covers with
        noted | ⟨earlier, pushed, coversEarlier⟩
      · rcases Option.isSome_iff_exists.mp noted with ⟨groups, found⟩
        apply List.mem_append_right
        apply List.mem_flatMap.mpr
        exact ⟨range, now, pushGsnRange_complete annotated.payloads covers logged found
          (annotated.right gsn groups found action logged) updates⟩
      · exact List.mem_append_left _
          (annotated.complete earlier pushed gsn coversEarlier action logged groupId updates)

/-! ### The start -/

def Start.Valid (history : ActionHistory U) (watermark : Nat) : Start U → Prop
  | .cold seen => seen ≤ watermark
  | .resume _ rows seen => (∀ entry ∈ rows.entries, entry ∈ history.entries) ∧ seen ≤ watermark

theorem mem_actionGsns {store : GroupStore U} {toGsn : Nat} :
    gsn ∈ actionGsns store fromGsn toGsn ↔
      (fromGsn ≤ gsn ∧ gsn ≤ toGsn) ∧ (store.actions.lookup gsn).isSome = true := by
  rw [actionGsns, List.mem_filter, List.mem_range'_1]
  apply and_congr_left
  intro _
  omega

theorem covered_committedRanges (fromGsn toGsn gsn : Nat) :
    (∃ range ∈ committedRanges store fromGsn toGsn, range.Covers gsn) ↔
      gsn ∈ actionGsns store fromGsn toGsn := by
  have ascending : (actionGsns store fromGsn toGsn).Pairwise fun earlier later =>
      earlier < later := (List.pairwise_lt_range' 1).filter _
  have spec := @Recovery.foldl_foldGsnIntoRange_spec [] _ nofun List.Pairwise.nil ascending nofun
  simp only [committedRanges, List.mem_reverse]
  exact (spec.2.2 gsn).trans (by simp)

theorem rowOf_iff {toGsn : Nat} {groupId : GroupId} :
    (∃ key ∈ (rows.store watermark).groupActions, RowOf fromGsn toGsn gsn groupId key) ↔
      (fromGsn ≤ gsn ∧ gsn ≤ toGsn) ∧
        ∃ action, (gsn, action) ∈ rows.entries ∧ groupId ∈ action.groups := by
  constructor
  · rintro ⟨key, listed, decoded, within⟩
    rcases Server.RocksDB.encode_decode decoded with ⟨rfl, fits⟩
    exact ⟨within, (rows.mem_groupActions watermark fits).mp listed⟩
  · rintro ⟨within, action, logged, member⟩
    have reachable : gsn < 256 ^ 8 - 1 := rows.reachable _ logged
    have fits : gsn < 256 ^ 8 := Nat.lt_of_lt_of_le reachable (by decide)
    refine ⟨encodeGroupActionKey groupId gsn,
      (rows.mem_groupActions watermark fits).mpr ⟨action, logged, member⟩, ?_, within⟩
    rw [Server.RocksDB.decode_encode, Nat.mod_eq_of_lt fits]

theorem lookup_recovered {toGsn : Nat} {groups : List GroupId}
    (found : (fillMissingGroups (committedRanges (rows.store seen) fromGsn toGsn)
      (recoveredGroups (rows.store seen).groupActions fromGsn toGsn)).lookup gsn = some groups) :
    ∃ action, (gsn, action) ∈ rows.entries ∧
      ∀ groupId, groupId ∈ groups ↔ groupId ∈ action.groups := by
  have listed := mem_recoveredGroups (rows.store seen).groupActions fromGsn toGsn gsn
  have noted := isSome_recoveredGroups (rows.store seen).groupActions fromGsn toGsn gsn
  simp only [rowOf_iff] at listed noted
  rw [lookup_fillMissingGroups] at found
  have committed : (fromGsn ≤ gsn ∧ gsn ≤ toGsn) ∧ ∃ action, (gsn, action) ∈ rows.entries := by
    cases passed : (recoveredGroups (rows.store seen).groupActions fromGsn toGsn).lookup gsn with
    | some _ =>
        rw [passed] at noted
        rcases noted.mp rfl with ⟨_, within, action, logged, _⟩
        exact ⟨within, action, logged⟩
    | none =>
        rw [passed, Option.none_or] at found
        split at found
        · next inRanges =>
            rcases List.mem_flatMap.mp inRanges with ⟨range, member, covered⟩
            have logged := (covered_committedRanges _ _ _ _).mp
              ⟨range, member, mem_rangeGsns.mp covered⟩
            rcases mem_actionGsns.mp logged with ⟨within, held⟩
            rcases Option.isSome_iff_exists.mp held with ⟨stored, held⟩
            rcases (rows.lookup_actions seen gsn stored).mp held with ⟨action, logged, _⟩
            exact ⟨within, action, logged⟩
        · cases found
  have entry : groups = ((recoveredGroups (rows.store seen).groupActions fromGsn toGsn).lookup
      gsn).getD [] := by
    cases passed : (recoveredGroups (rows.store seen).groupActions fromGsn toGsn).lookup gsn with
    | some held =>
        rw [passed, Option.some_or] at found
        exact (Option.some.inj found).symm
    | none =>
        rw [passed, Option.none_or] at found
        split at found
        · exact (Option.some.inj found).symm
        · cases found
  rcases committed with ⟨within, action, logged⟩
  refine ⟨action, logged, fun groupId => ?_⟩
  rw [entry, listed]
  constructor
  · rintro ⟨_, other, otherLogged, member⟩
    rw [rows.action_unique logged otherLogged]
    exact member
  · exact fun member => ⟨within, action, logged, member⟩

theorem annotated_split (annotated : Annotated history watermark life) (atMost : seen ≤ watermark) :
    Annotated history watermark (drain resolveGroupIds (history.store watermark) life
      (life.state.plan.splitPushable seen)) :=
  annotated_drain annotated (fun _ => mem_splitPushable.mp)
    fun _ released => Nat.le_trans (resolved_splitPushable released) atMost

theorem annotated_recovered {lastPushedGsn : Nat}
    (older : ∀ entry ∈ rows.entries, entry ∈ history.entries) :
    Annotated history watermark (recovered lastPushedGsn (rows.store seen)) where
  payloads := nofun
  right := by
    intro gsn groups found action logged
    dsimp only [recovered] at found
    split at found
    · rcases lookup_recovered found with ⟨row, rowLogged, right⟩
      rw [history.action_unique logged (older _ rowLogged)]
      exact right
    · cases found
  durable := by
    intro range waits gsn covers
    dsimp only [recovered] at waits
    rw [Plan.new, mem_sortBy] at waits
    split at waits
    · have logged := (covered_committedRanges _ _ _ _).mp ⟨range, waits, covers⟩
      rcases Option.isSome_iff_exists.mp (mem_actionGsns.mp logged).2 with ⟨stored, held⟩
      rcases (rows.lookup_actions seen gsn stored).mp held with ⟨action, row, _⟩
      exact ⟨action, older _ row⟩
    · cases waits
  known := by
    intro range waits gsn covers
    dsimp only [recovered] at waits ⊢
    rw [Plan.new, mem_sortBy] at waits
    split at waits
    · next behind =>
        have inRanges := List.mem_flatMap.mpr ⟨range, waits, mem_rangeGsns.mpr covers⟩
        rw [if_pos behind, if_pos behind, lookup_fillMissingGroups, if_pos inRanges,
          Option.isSome_or]
        exact .inl (Bool.or_true _)
    · cases waits
  resolved := nofun
  sound := nofun
  complete := nofun

theorem annotated_begin {start : Start U} (valid : start.Valid history watermark) :
    Annotated history watermark (begin resolveGroupIds (history.store watermark) start) := by
  cases start with
  | cold seen =>
      exact { payloads := nofun, right := nofun, durable := nofun, known := nofun, resolved := nofun,
              sound := nofun, complete := nofun }
  | resume lastPushedGsn rows seen =>
      rcases valid with ⟨older, atMost⟩
      exact annotated_split (annotated_recovered older) atMost

/-! ### A message -/

/-- The Writer tells of committed Actions, and resolves ranges that hold none. -/
def Notice.Valid (history : ActionHistory U) : Notice U → Prop
  | .batchCommitted fromGsn actions =>
      actions ≠ [] ∧ ∀ entry ∈ numbered fromGsn actions, entry ∈ history.entries
  | .rangeResolved range => ∀ entry ∈ history.entries, ¬ range.Covers entry.1

/-- The ranges and groups of a committed batch, before anything is released. -/
def RouterLife.noteCommitted (life : RouterLife U) (fromGsn : Nat)
    (actions : List (DurableAction U)) : RouterLife U :=
  let range : GsnRange := (fromGsn, fromGsn + actions.length - 1)
  { life with
    state :=
      { plan := (life.state.plan.claim range).acknowledge range
        pendingGroups := (numbered fromGsn actions).foldl
          (fun groups entry => setEntry entry.1 entry.2.groups groups) life.state.pendingGroups
        batchMeta := setEntry range (actions.map DurableAction.frame) life.state.batchMeta } }

theorem handleInfo_batchCommitted (actions : List (DurableAction U)) :
    handleInfo resolveGroupIds store life (.batchCommitted fromGsn actions, seen) =
      drain resolveGroupIds store (life.noteCommitted fromGsn actions)
        ((life.noteCommitted fromGsn actions).state.plan.splitPushable seen) := rfl

def RouterLife.noteResolved (life : RouterLife U) (range : GsnRange) : RouterLife U :=
  { life with
    state :=
      { plan := life.state.plan.resolve range
        pendingGroups := life.state.pendingGroups.filter fun entry =>
          !(decide (range.1 ≤ entry.1) && decide (entry.1 ≤ range.2))
        batchMeta := life.state.batchMeta.filter fun entry => entry.1 ≠ range } }

theorem handleInfo_rangeResolved (range : GsnRange) :
    handleInfo resolveGroupIds store life (.rangeResolved range, seen) =
      drain resolveGroupIds store (life.noteResolved range)
        ((life.noteResolved range).state.plan.splitPushable seen) := rfl

theorem annotated_batchCommitted (annotated : Annotated history watermark life)
    {actions : List (DurableAction U)} (nonempty : actions ≠ [])
    (committed : ∀ entry ∈ numbered fromGsn actions, entry ∈ history.entries)
    (atMost : seen ≤ watermark) :
    Annotated history watermark (handleInfo resolveGroupIds (history.store watermark) life
      (.batchCommitted fromGsn actions, seen)) := by
  let range : GsnRange := (fromGsn, fromGsn + actions.length - 1)
  have carried : ∀ gsn, range.Covers gsn → ∃ action, (gsn, action) ∈ numbered fromGsn actions := by
    intro gsn covers
    rcases covers with ⟨above, below⟩
    have positive := List.length_pos_iff.mpr nonempty
    dsimp only [range] at above below
    exact exists_mem_numbered above (by omega)
  have noted : Annotated history watermark (life.noteCommitted fromGsn actions) := by
    refine { annotated with payloads := ?_, right := ?_, durable := ?_, known := ?_ }
    · intro other payloads found gsn stored listed
      dsimp only [RouterLife.noteCommitted] at found
      rw [lookup_range, lookup_setEntry] at found
      split at found
      · next same =>
          cases found
          rw [same, numbered_map, List.mem_map] at listed
          rcases listed with ⟨entry, inBatch, equal⟩
          cases equal
          exact ⟨entry.2, committed entry inBatch, rfl⟩
      · rw [← lookup_range] at found
        exact annotated.payloads other payloads found gsn stored listed
    · intro gsn groups found action logged
      rcases lookup_foldl_setEntry Prod.fst (fun entry : Nat × DurableAction U => entry.2.groups)
        found with ⟨entry, inBatch, rfl, rfl⟩ | earlier
      · rw [history.action_unique logged (committed entry inBatch)]
        exact fun _ => Iff.rfl
      · exact annotated.right gsn groups earlier action logged
    · intro other waits gsn covers
      rcases Plan.mem_claim.mp waits with equal | earlier
      · subst equal
        rcases carried gsn covers with ⟨action, listed⟩
        exact ⟨action, committed _ listed⟩
      · exact annotated.durable other earlier gsn covers
    · intro other waits gsn covers
      dsimp only [RouterLife.noteCommitted]
      rw [lookup_foldl_setEntry_isSome Prod.fst
        (fun entry : Nat × DurableAction U => entry.2.groups)]
      rcases Plan.mem_claim.mp waits with equal | earlier
      · subst equal
        rcases carried gsn covers with ⟨action, listed⟩
        exact .inl (.inl ⟨_, listed, rfl⟩)
      · rcases annotated.known other earlier gsn covers with known | pushed
        · exact .inl (.inr known)
        · exact .inr pushed
  rw [handleInfo_batchCommitted]
  exact annotated_split noted atMost

theorem annotated_rangeResolved (annotated : Annotated history watermark life) {range : GsnRange}
    (hole : ∀ entry ∈ history.entries, ¬ range.Covers entry.1) (atMost : seen ≤ watermark) :
    Annotated history watermark (handleInfo resolveGroupIds (history.store watermark) life
      (.rangeResolved range, seen)) := by
  let outside : Nat → Bool := fun gsn => !(decide (range.1 ≤ gsn) && decide (gsn ≤ range.2))
  have noted : Annotated history watermark (life.noteResolved range) := by
    refine { annotated with payloads := ?_, right := ?_, durable := ?_, known := ?_ }
    · intro other payloads found
      rw [lookup_range] at found
      have kept := (lookup_filter_keys (fun key => decide (key ≠ range)) life.state.batchMeta
        other).symm.trans found
      split at kept
      · rw [← lookup_range] at kept
        exact annotated.payloads other payloads kept
      · cases kept
    · intro gsn groups found
      have kept := (lookup_filter_keys outside life.state.pendingGroups gsn).symm.trans found
      split at kept
      · exact annotated.right gsn groups kept
      · cases kept
    · intro other waits
      exact annotated.durable other (List.mem_filter.mp waits).1
    · intro other waits gsn covers
      have waited := (List.mem_filter.mp waits).1
      rcases annotated.durable other waited gsn covers with ⟨action, logged⟩
      have beside : outside gsn = true := by
        have notCovered := hole _ logged
        simp only [GsnRange.Covers] at notCovered
        simp only [outside, Bool.not_eq_true', Bool.and_eq_false_iff, decide_eq_false_iff_not]
        omega
      change ((life.state.pendingGroups.filter fun entry => outside entry.1).lookup gsn).isSome =
        true ∨ _
      rw [lookup_filter_keys outside, if_pos beside]
      exact annotated.known other waited gsn covers
  rw [handleInfo_rangeResolved]
  exact annotated_split noted atMost

theorem annotated_handleInfo (annotated : Annotated history watermark life)
    {input : Notice U × Nat} (valid : input.1.Valid history ∧ input.2 ≤ watermark) :
    Annotated history watermark
      (handleInfo resolveGroupIds (history.store watermark) life input) := by
  rcases input with ⟨notice, seen⟩
  rcases valid with ⟨noticeValid, atMost⟩
  cases notice with
  | batchCommitted fromGsn actions =>
      exact annotated_batchCommitted annotated noticeValid.1 noticeValid.2 atMost
  | rangeResolved range => exact annotated_rangeResolved annotated noticeValid atMost

/-! ### Release -/

/-- Every range a life was told of was pushed or waits, and it waits only behind the
watermark. -/
structure Released (ranges : List GsnRange) (seen : Nat) (life : RouterLife U) : Prop where
  ordered : life.state.plan.Ordered
  blocked : life.state.plan.Blocked seen
  spans : ∀ range ∈ ranges, range.1 ≤ range.2
  told : ∀ range, range ∈ ranges ↔
    range ∈ life.pushed ∨ range ∈ life.state.plan.pendingNotifications

variable {ranges : List GsnRange}

theorem Released.pushed (released : Released ranges seen life) {range : GsnRange}
    (member : range ∈ ranges)
    (passed : ∀ other ∈ ranges, other.1 ≤ range.1 → other.2 ≤ seen) : range ∈ life.pushed := by
  rcases (released.told range).mp member with pushed | waits
  · exact pushed
  · rcases released.blocked range waits with ⟨first, firstWaits, before, above⟩
    have within := passed first ((released.told first).mpr (.inr firstWaits)) before
    omega

theorem released_drain (ordered : life.state.plan.Ordered)
    (spans : ∀ range ∈ ranges, range.1 ≤ range.2)
    (told : ∀ range, range ∈ ranges ↔
      range ∈ life.pushed ∨ range ∈ life.state.plan.pendingNotifications) :
    Released ranges seen
      (drain resolveGroupIds store life (life.state.plan.splitPushable seen)) := by
  rcases ordered.splitPushable seen with ⟨remains, blocked⟩
  refine ⟨remains, blocked, spans, fun range => ?_⟩
  rw [told, ← @mem_splitPushable range life.state.plan seen, ← or_assoc]
  exact or_congr_left List.mem_append.symm

theorem nodup_committedRanges (fromGsn toGsn : Nat) :
    (∀ range ∈ committedRanges store fromGsn toGsn, range.1 ≤ range.2) ∧
      (committedRanges store fromGsn toGsn).Nodup := by
  have ascending : (actionGsns store fromGsn toGsn).Pairwise fun earlier later =>
      earlier < later := (List.pairwise_lt_range' 1).filter _
  have spec := @Recovery.foldl_foldGsnIntoRange_spec [] _ nofun List.Pairwise.nil ascending nofun
  constructor
  · intro range member
    exact spec.1 range (List.mem_reverse.mp member)
  · rw [committedRanges, List.nodup_reverse]
    refine spec.2.1.imp_of_mem fun member _ apart same => ?_
    have valid := spec.1 _ member
    rw [same] at valid apart
    omega

theorem released_begin (start : Start U) :
    Released start.ranges start.watermark (begin resolveGroupIds store start) := by
  cases start with
  | cold seen =>
      refine ⟨Plan.ordered_new List.nodup_nil seen, nofun, nofun, fun range => ?_⟩
      exact ⟨nofun, fun either => either.elim nofun nofun⟩
  | resume lastPushedGsn rows seen =>
      have committed : ∀ range ∈ (recovered lastPushedGsn
          (rows.store seen)).state.plan.pendingNotifications, range.1 ≤ range.2 := by
        intro range waits
        dsimp only [recovered] at waits
        rw [Plan.new, mem_sortBy] at waits
        split at waits
        · exact (nodup_committedRanges _ _ _).1 range waits
        · cases waits
      have ordered : (recovered lastPushedGsn (rows.store seen)).state.plan.Ordered := by
        apply Plan.ordered_new
        split
        · exact (nodup_committedRanges _ _ _).2
        · exact List.nodup_nil
      apply released_drain store ordered committed
      exact fun range => ⟨.inr, fun either => either.elim nofun id⟩

theorem released_handleInfo (released : Released ranges watermark life)
    (annotated : Annotated history seen life) {input : Notice U × Nat}
    (valid : input.1.Valid history) :
    Released (ranges ++ input.1.ranges) input.2
      (handleInfo resolveGroupIds store life input) := by
  rcases input with ⟨notice, now⟩
  cases notice with
  | batchCommitted fromGsn actions =>
      let range : GsnRange := (fromGsn, fromGsn + actions.length - 1)
      have ordered : (life.noteCommitted fromGsn actions).state.plan.Ordered :=
        released.ordered.claimed range
      rw [handleInfo_batchCommitted]
      apply released_drain store ordered
      · intro other member
        rcases List.mem_append.mp member with earlier | new
        · exact released.spans other earlier
        · have positive := List.length_pos_iff.mpr valid.1
          rw [List.mem_singleton.mp new]
          dsimp only
          omega
      · intro other
        change other ∈ ranges ++ [range] ↔ other ∈ life.pushed ∨
          other ∈ (life.state.plan.claim range).pendingNotifications
        rw [List.mem_append, List.mem_singleton, released.told, Plan.mem_claim, or_assoc]
        exact or_congr_right or_comm
  | rangeResolved range =>
      have ordered : (life.noteResolved range).state.plan.Ordered := released.ordered.resolve range
      rw [handleInfo_rangeResolved]
      apply released_drain store ordered
      · rw [Notice.ranges, List.append_nil]
        exact released.spans
      · intro other
        rw [Notice.ranges, List.append_nil, released.told]
        apply or_congr_right
        constructor
        · intro waits
          apply List.mem_filter.mpr
          refine ⟨waits, decide_eq_true ?_⟩
          -- A range that waits holds Actions, and a resolved one does not.
          rintro rfl
          have spans := released.spans other ((released.told other).mpr (.inr waits))
          have covers : other.Covers other.1 := ⟨Nat.le_refl _, spans⟩
          rcases annotated.durable other waits other.1 covers with ⟨action, logged⟩
          exact valid _ logged covers
        · exact fun kept => (List.mem_filter.mp kept).1

theorem live_of_run {start : Start U} (started : start.Valid history watermark)
    {inputs : List (Notice U × Nat)}
    (valid : ∀ input ∈ inputs, input.1.Valid history ∧ input.2 ≤ watermark) :
    Annotated history watermark (run resolveGroupIds (history.store watermark) start inputs) ∧
      Released (announced start inputs) (lastSeen start inputs)
        (run resolveGroupIds (history.store watermark) start inputs) := by
  have general : ∀ (ranges : List GsnRange) (seen : Nat) (life : RouterLife U),
      Annotated history watermark life → Released ranges seen life →
        Annotated history watermark
            (inputs.foldl (handleInfo resolveGroupIds (history.store watermark)) life) ∧
          Released (ranges ++ inputs.flatMap fun input => input.1.ranges)
            (inputs.foldl (fun _ input => input.2) seen)
            (inputs.foldl (handleInfo resolveGroupIds (history.store watermark)) life) := by
    induction inputs with
    | nil =>
        intro ranges seen life annotated released
        rw [List.flatMap_nil, List.append_nil]
        exact ⟨annotated, released⟩
    | cons input rest induction =>
        intro ranges seen life annotated released
        have here := valid input List.mem_cons_self
        rw [List.flatMap_cons, ← List.append_assoc]
        apply induction fun other member => valid other (List.mem_cons_of_mem _ member)
        · exact annotated_handleInfo annotated here
        · exact released_handleInfo _ released annotated here.1
  exact general _ _ _ (annotated_begin started) (released_begin _ start)

end Life

/-! ## The pages of catch-up -/

section Pages

variable {history : ActionHistory U} {watermark : Nat}

variable {groupId : GroupId}

theorem deliver_history {gsn : Nat} {action : LogAction U} :
    CatchUp.deliver (history.store watermark) groupId gsn = some action ↔
      ∃ durable, (gsn, durable) ∈ history.entries ∧
        (CatchUp.scopedCopy durable.frame gsn groupId).updates ≠ [] ∧
        action = CatchUp.scopedCopy durable.frame gsn groupId := by
  rw [CatchUp.deliver_eq_some]
  constructor
  · rintro ⟨stored, held, updates, rfl⟩
    rcases (history.lookup_actions watermark gsn stored).mp held with ⟨durable, logged, rfl⟩
    exact ⟨durable, logged, updates, rfl⟩
  · rintro ⟨durable, logged, updates, rfl⟩
    exact ⟨durable.frame, (history.lookup_actions watermark gsn _).mpr ⟨durable, logged, rfl⟩,
      updates, rfl⟩

theorem mem_page {offset : Nat} {limit : Int} {action : LogAction U}
    (member : action ∈ (CatchUp.performCatchUp (history.store watermark) groupId offset
      limit).actions) :
    ∃ durable, (action.gsn, durable) ∈ history.entries ∧
      (CatchUp.scopedCopy durable.frame action.gsn groupId).updates ≠ [] ∧
      action = CatchUp.scopedCopy durable.frame action.gsn groupId := by
  rw [CatchUp.actions_performCatchUp, List.mem_filterMap] at member
  rcases member with ⟨gsn, _, delivers⟩
  rcases deliver_history.mp delivers with ⟨durable, logged, updates, rfl⟩
  exact ⟨durable, logged, updates, rfl⟩

theorem mem_page_of_logged {gsn : Nat} {durable : DurableAction U}
    (logged : (gsn, durable) ∈ history.entries) (resolved : gsn ≤ watermark)
    (updates : (CatchUp.scopedCopy durable.frame gsn groupId).updates ≠ []) (limit : Int) :
    CatchUp.scopedCopy durable.frame gsn groupId ∈
      (CatchUp.performCatchUp (history.store watermark) groupId (gsn - 1) limit).actions := by
  have positive : 0 < gsn := history.positive _ logged
  have reachable : gsn < 256 ^ 8 - 1 := history.reachable _ logged
  have ceiling : 256 ^ 8 - 1 = CatchUp.maxGsn := by decide
  have below : gsn < CatchUp.upperBoundGsn (history.store watermark).watermark := by
    rw [history.store_watermark]
    exact CatchUp.upperBoundGsn_iff.mpr ⟨.inr resolved, ceiling ▸ reachable⟩
  have fits : gsn < 256 ^ 8 := Nat.lt_of_lt_of_le reachable (by decide)
  have indexed := (history.mem_groupActions watermark fits).mpr
    ⟨durable, logged, mem_groups_of_scoped updates⟩
  exact CatchUp.mem_page_of_row positive below indexed
    (deliver_history.mpr ⟨durable, logged, updates, rfl⟩) limit

end Pages

/-! ## Prepared Actions -/

/-- What the Committer writes for an Action that a flush prepared; `binary` is the bytes of a
group id. -/
def ofPrepared (binary : Term → GroupId) (prepared : Access.Writer.PreparedAction) :
    DurableAction Access.ValidatedUpdate where
  id := prepared.id
  actorId := prepared.actorId
  hlc := prepared.hlc
  scopedUpdates := prepared.updates.zip (prepared.updateScopes.map fun scope => scope.map binary)

theorem ofPrepared_spec (binary : Term → GroupId) {fresh : List Access.ValidatedAction}
    {caches : Access.SystemCaches} {overlay : Access.Overlay}
    {prepared : List Access.Writer.PreparedAction} {mutations : List Access.Mutation}
    {left : Access.Overlay}
    (flushed : Access.Writer.prepare fresh caches overlay = .ok (prepared, mutations, left)) :
    ∀ own ∈ prepared, (ofPrepared binary own).updates = own.updates ∧
      (ofPrepared binary own).updateScopes =
        own.updateScopes.map (fun scope => scope.map binary) ∧
      ∀ groupId, groupId ∈ (ofPrepared binary own).groups ↔ groupId ∈ own.groups.map binary := by
  rcases Access.bind_eq_ok.mp flushed with ⟨⟨actions, memo⟩, preparedActions, flushed⟩
  rcases Access.bind_eq_ok.mp flushed with ⟨_, _, flushed⟩
  cases flushed
  intro own member
  rcases Access.Writer.prepared_aligned preparedActions own member with ⟨aligned, groups⟩
  have scopes : (ofPrepared binary own).updateScopes =
      own.updateScopes.map fun scope => scope.map binary := by
    apply List.map_snd_zip
    rw [List.length_map]
    exact Nat.le_of_eq aligned
  refine ⟨?_, scopes, fun groupId => ?_⟩
  · apply List.map_fst_zip
    rw [List.length_map]
    exact Nat.le_of_eq aligned.symm
  · rw [DurableAction.mem_groups, scopes, groups]
    simp only [List.mem_map, List.mem_eraseDups, List.mem_flatten]
    constructor
    · intro found
      rcases found with ⟨_, ⟨scope, listed, rfl⟩, inside⟩
      rcases List.mem_map.mp inside with ⟨group, isGroup, rfl⟩
      exact ⟨group, ⟨scope, listed, isGroup⟩, rfl⟩
    · intro found
      rcases found with ⟨group, ⟨scope, listed, isGroup⟩, rfl⟩
      exact ⟨_, ⟨scope, listed, rfl⟩, List.mem_map_of_mem isGroup⟩

/-! ## Live delivery and catch-up -/

/-- Every Update of a copy of a committed Action has the group in its scope. -/
def InScope (history : ActionHistory U) (groupId : GroupId) (action : LogAction U) : Prop :=
  ∃ durable, (action.gsn, durable) ∈ history.entries ∧ ∀ update ∈ action.updates,
    ∃ groupIds, (update, groupIds) ∈ durable.updates.zip durable.updateScopes ∧
      groupId ∈ groupIds

theorem inScope_of_scopedCopy {history : ActionHistory U} {groupId : GroupId}
    {action : LogAction U} {durable : DurableAction U}
    (logged : (action.gsn, durable) ∈ history.entries)
    (copy : action = CatchUp.scopedCopy durable.frame action.gsn groupId) :
    InScope history groupId action := by
  refine ⟨durable, logged, fun update member => ?_⟩
  rw [copy, CatchUp.scopedCopy, updatesForGroup_frame] at member
  exact mem_scopedUpdates.mp member

/-- A life of the Router and the catch-up reads behind it agree on every Action of a
released range, and neither holds an Update that is scoped elsewhere. -/
structure LiveEqualsCatchUp (history : ActionHistory U) (watermark : Nat) (start : Start U)
    (inputs : List (Notice U × Nat)) (life : RouterLife U) : Prop where
  delivered : ∀ groupId action, (groupId, action) ∈ life.delivered →
    (∃ range ∈ life.pushed, range.Covers action.gsn) ∧ InScope history groupId action
  returned : ∀ groupId offset limit,
    ∀ action ∈ (CatchUp.performCatchUp (history.store watermark) groupId offset limit).actions,
      InScope history groupId action
  announced : ∀ range ∈ life.pushed, range ∈ announced start inputs
  /-- A range is released once the watermark that a message reads has passed it and those
  that start before it. -/
  released : ∀ range ∈ LiveDelivery.announced start inputs,
    (∀ other ∈ LiveDelivery.announced start inputs, other.1 ≤ range.1 →
      other.2 ≤ lastSeen start inputs) → range ∈ life.pushed
  /-- Catch-up returns what was delivered when it reads from the Action on, and what it
  returns from any offset was delivered. -/
  same : ∀ range ∈ life.pushed, ∀ action : LogAction U, range.Covers action.gsn →
    ∀ groupId limit,
      ((groupId, action) ∈ life.delivered ↔ action ∈ (CatchUp.performCatchUp
        (history.store watermark) groupId (action.gsn - 1) limit).actions) ∧
      ∀ offset, action ∈ (CatchUp.performCatchUp (history.store watermark) groupId offset
        limit).actions → (groupId, action) ∈ life.delivered

def mixedAction : DurableAction Nat where
  id := "act_a"
  actorId := "a_1"
  hlc := 1
  scopedUpdates := [(7, [[103], [104]]), (8, [[104]]), (9, [])]

def mixedHistory : ActionHistory Nat where
  entries := [(1, mixedAction)]
  nodup := by decide
  positive := by decide
  reachable := by decide

example : (run (fun _ => []) (mixedHistory.store 1) (.cold 0)
    [(.batchCommitted 1 [mixedAction], 1)]).delivered.map (fun push => (push.1, push.2.updates)) =
      [([103], [7]), ([104], [7, 8])] := by decide

end Ebb.Sync.LiveDelivery
