import Ebb.Access.OverlayAgreement
import Ebb.Access.PermissionHelper

namespace Ebb.Access

/-! The groups each Update is delivered to, which the Writer resolves when it prepares
a flush and stores with the Action. -/

namespace EntityIndex

/-- `fan_out_groups/2`, what the Writer resolves through its memo. -/
def fanOutGroups (opts : ResolveOpts) (update : ValidatedUpdate) : Outcome (List Term) := do
  match ← fanOutPreference opts update with
  | .wire groupIds => .ok groupIds
  | .source sourceId => .ok (sourceGroups opts sourceId)
  | .byId subjectType => .ok (resolveGroups opts subjectType update.subjectId)

end EntityIndex

namespace RocksDB

def validateKeyComponent (value : String) : Outcome String :=
  if value = "" then .error (.raised .argumentError) else .ok value

/-- The key of a type's entity; a null byte separates the two. -/
def encodeTypeEntityKey (type entityId : String) : Outcome String := do
  let type ← validateKeyComponent type
  let entityId ← validateKeyComponent entityId
  if type.toList.contains (Char.ofNat 0) then .error (.raised .argumentError)
  else .ok (type ++ "\x00" ++ entityId)

end RocksDB

namespace Writer

open PermissionHelper

/-- What a flush remembers a resolution under. -/
inductive ScopeKey where
  | source (entityId : Term)
  | byId (subjectType subjectId : String)
deriving DecidableEq

/-- The cached groups, and the entity whose memberships in the Action come on top. -/
abbrev Resolved := List Term × Term

abbrev Memo := OrderedMap ScopeKey Resolved

/-- The part of a resolution that the memo keeps. -/
def resolveCached (opts : ResolveOpts) : ScopeKey → Resolved
  | .source sourceId => (EntityIndex.sourceGroupsCached opts sourceId, sourceId)
  | .byId subjectType subjectId => EntityIndex.resolveGroupsCached opts subjectType subjectId

def memoFetch (memo : Memo) (key : ScopeKey) (opts : ResolveOpts) : Resolved × Memo :=
  match memo.get? key with
  | some value => (value, memo)
  | none =>
      let value := resolveCached opts key
      (value, memo.set key value)

def resolveMemo (memo : Memo) (key : ScopeKey) (opts : ResolveOpts) : List Term × Memo :=
  let fetched := memoFetch memo key opts
  (EntityIndex.applyIntraAction opts fetched.1.1 fetched.1.2, fetched.2)

def resolveUpdateGroups (update : ValidatedUpdate) (opts : ResolveOpts) (memo : Memo) :
    Outcome (List Term × Memo) := do
  match ← EntityIndex.fanOutPreference opts update with
  | .wire groupIds => .ok (groupIds, memo)
  | .source sourceId => .ok (resolveMemo memo (.source sourceId) opts)
  | .byId subjectType => .ok (resolveMemo memo (.byId subjectType update.subjectId) opts)

/-! ## Flushes -/

structure PreparedAction where
  id : String
  actorId : String
  hlc : Nat
  updates : List ValidatedUpdate
  updateScopes : List (List Term)
  groups : List Term
  typeEntityKeys : List String
deriving DecidableEq

def actionOpts (opts : ResolveOpts) (updates : List ValidatedUpdate) : ResolveOpts :=
  { opts with
    intraAction := buildIntraActionContext updates
    intraRelationshipSources := buildIntraRelationshipSources updates }

def prepareUpdates (opts : ResolveOpts) :
    List ValidatedUpdate → Memo → Outcome (List (List Term) × List String × Memo)
  | [], memo => .ok ([], [], memo)
  | update :: rest, memo => do
      let (groupIds, memo) ← resolveUpdateGroups update opts memo
      let key ← RocksDB.encodeTypeEntityKey update.subjectType update.subjectId
      let (scopes, keys, memo) ← prepareUpdates opts rest memo
      .ok (groupIds :: scopes, key :: keys, memo)

def prepareAction (action : ValidatedAction) (opts : ResolveOpts) (memo : Memo) :
    Outcome (PreparedAction × Memo) := do
  let (scopes, keys, memo) ← prepareUpdates (actionOpts opts action.updates) action.updates memo
  .ok ({
    id := action.id
    actorId := action.actorId
    hlc := action.hlc
    updates := action.updates
    updateScopes := scopes
    groups := scopes.flatten.eraseDups
    typeEntityKeys := keys }, memo)

def prepareActions (opts : ResolveOpts) :
    List ValidatedAction → Memo → Outcome (List PreparedAction × Memo)
  | [], memo => .ok ([], memo)
  | action :: rest, memo => do
      let (prepared, memo) ← prepareAction action opts memo
      let (later, memo) ← prepareActions opts rest memo
      .ok (prepared :: later, memo)

def resolveOpts (caches : SystemCaches) (overlay : Overlay) : ResolveOpts where
  caches := caches
  intraAction := .empty
  intraRelationshipSources := .empty
  overlay := overlay

/-- One flush: every Action's scopes against one snapshot, and the plan of its
mutations. -/
def prepare (fresh : List ValidatedAction) (caches : SystemCaches) (overlay : Overlay) :
    Outcome (List PreparedAction × List Mutation × Overlay) := do
  let (prepared, _) ← prepareActions (resolveOpts caches overlay) fresh .empty
  let (mutations, cumulative) ← plan (fresh.flatMap (·.updates)) caches overlay
  .ok (prepared, mutations, slice cumulative mutations)

/-! ## What the memo leaves out -/

/-- The Update is resolved by the id of its relationship row. -/
def AsksById (opts : ResolveOpts) (update : ValidatedUpdate) (id : String) : Prop :=
  EntityIndex.fanOutPreference opts update = .ok (.byId "relationship") ∧ update.subjectId = id

/-- Every entry is what resolution finds anew, but that of a relationship which another
Action of the flush asked for: it may have been found among that Action's rows. -/
structure Remembers (memo : Memo) (opts : ResolveOpts) (others own : String → Prop) : Prop where
  current : ∀ key value, memo.get? key = some value →
    (∀ id, key = .byId "relationship" id → ¬ others id) → value = resolveCached opts key
  known : ∀ id, (memo.get? (.byId "relationship" id)).isSome = true → others id ∨ own id

variable {memo next : Memo} {opts : ResolveOpts} {others own : String → Prop}

theorem remembers_empty (opts : ResolveOpts) (others own : String → Prop) :
    Remembers .empty opts others own where
  current := nofun
  known := nofun

section

variable (remembers : Remembers memo opts others own)
include remembers

theorem remembers_memoFetch {key : ScopeKey} (asks : ∀ id, key = .byId "relationship" id → own id) :
    Remembers (memoFetch memo key opts).2 opts others own := by
  rw [memoFetch]
  cases found : memo.get? key with
  | some value => exact remembers
  | none =>
      constructor
      · intro other value stored unasked
        rw [OrderedMap.get?_set] at stored
        split at stored
        · next same =>
            cases stored
            rw [same]
        · exact remembers.current other value stored unasked
      · intro id stored
        rw [OrderedMap.get?_set] at stored
        split at stored
        · next same => exact .inr (asks id same.symm)
        · exact remembers.known id stored

theorem resolveMemo_eq {key : ScopeKey} (free : ∀ id, key = .byId "relationship" id → ¬ others id) :
    (resolveMemo memo key opts).1 =
      EntityIndex.applyIntraAction opts (resolveCached opts key).1 (resolveCached opts key).2 := by
  have fetched : (memoFetch memo key opts).1 = resolveCached opts key := by
    rw [memoFetch]
    cases found : memo.get? key with
    | some value => exact remembers.current key value found free
    | none => rfl
  rw [resolveMemo, fetched]

theorem resolveUpdateGroups_eq_ok {update : ValidatedUpdate} {groupIds : List Term}
    (asks : ∀ id, AsksById opts update id → own id)
    (resolved : resolveUpdateGroups update opts memo = .ok (groupIds, next)) :
    Remembers next opts others own ∧ ((∀ id, AsksById opts update id → ¬ others id) →
      EntityIndex.fanOutGroups opts update = .ok groupIds) := by
  rw [resolveUpdateGroups] at resolved
  rcases bind_eq_ok.mp resolved with ⟨preference, prefers, resolved⟩
  rw [EntityIndex.fanOutGroups, prefers]
  cases preference with
  | wire groups =>
      cases resolved
      exact ⟨remembers, fun _ => rfl⟩
  | source sourceId =>
      have asked : ∀ id, ScopeKey.source sourceId = .byId "relationship" id → own id := nofun
      have pair : resolveMemo memo (.source sourceId) opts = (groupIds, next) :=
        Except.ok.inj resolved
      have kept := remembers_memoFetch remembers asked
      change Remembers (resolveMemo memo (.source sourceId) opts).2 opts others own at kept
      rw [pair] at kept
      refine ⟨kept, fun _ => ?_⟩
      have memoized := @resolveMemo_eq _ _ _ _ remembers (.source sourceId) nofun
      rw [pair] at memoized
      exact congrArg Except.ok memoized.symm
  | byId subjectType =>
      have named : ∀ id, ScopeKey.byId subjectType update.subjectId = .byId "relationship" id →
          AsksById opts update id := by
        intro id same
        cases same
        exact ⟨prefers, rfl⟩
      have pair : resolveMemo memo (.byId subjectType update.subjectId) opts =
          (groupIds, next) := Except.ok.inj resolved
      have kept := remembers_memoFetch remembers fun id same => asks id (named id same)
      change Remembers (resolveMemo memo (.byId subjectType update.subjectId) opts).2 opts others
        own at kept
      rw [pair] at kept
      refine ⟨kept, fun free => ?_⟩
      have memoized := resolveMemo_eq remembers fun id same => free id (named id same)
      rw [pair] at memoized
      exact congrArg Except.ok memoized.symm

end

theorem remembers_prepareUpdates {updates : List ValidatedUpdate} {scopes : List (List Term)}
    {keys : List String} (remembers : Remembers memo opts others own)
    (asks : ∀ update ∈ updates, ∀ id, AsksById opts update id → own id)
    (prepared : prepareUpdates opts updates memo = .ok (scopes, keys, next)) :
    Remembers next opts others own ∧
      ((∀ update ∈ updates, ∀ id, AsksById opts update id → ¬ others id) →
        updates.mapM (EntityIndex.fanOutGroups opts) = .ok scopes) := by
  induction updates generalizing memo scopes keys with
  | nil =>
      cases prepared
      exact ⟨remembers, fun _ => rfl⟩
  | cons update rest induction =>
      rcases bind_eq_ok.mp prepared with ⟨⟨groupIds, afterHere⟩, here, prepared⟩
      rcases bind_eq_ok.mp prepared with ⟨key, _, prepared⟩
      rcases bind_eq_ok.mp prepared with ⟨⟨later, laterKeys, afterRest⟩, preparedRest, prepared⟩
      cases prepared
      have resolved := resolveUpdateGroups_eq_ok remembers (asks update List.mem_cons_self) here
      have tail := induction resolved.1
        (fun other member => asks other (List.mem_cons_of_mem _ member)) preparedRest
      refine ⟨tail.1, fun free => ?_⟩
      rw [List.mapM_cons, resolved.2 (free update List.mem_cons_self),
        tail.2 fun other member => free other (List.mem_cons_of_mem _ member)]
      rfl

theorem length_prepareUpdates {updates : List ValidatedUpdate} {scopes : List (List Term)}
    {keys : List String} (prepared : prepareUpdates opts updates memo = .ok (scopes, keys, next)) :
    scopes.length = updates.length := by
  induction updates generalizing memo scopes keys with
  | nil =>
      cases prepared
      rfl
  | cons update rest induction =>
      rcases bind_eq_ok.mp prepared with ⟨⟨groupIds, afterHere⟩, _, prepared⟩
      rcases bind_eq_ok.mp prepared with ⟨key, _, prepared⟩
      rcases bind_eq_ok.mp prepared with ⟨⟨later, laterKeys, afterRest⟩, preparedRest, prepared⟩
      cases prepared
      rw [List.length_cons, List.length_cons, induction preparedRest]

/-- A prepared Action has one scope for each Update, and is filed under all their groups. -/
theorem prepared_aligned {actions : List ValidatedAction} {prepared : List PreparedAction}
    (done : prepareActions opts actions memo = .ok (prepared, next)) :
    ∀ own ∈ prepared, own.updateScopes.length = own.updates.length ∧
      own.groups = own.updateScopes.flatten.eraseDups := by
  induction actions generalizing memo prepared with
  | nil =>
      cases done
      exact nofun
  | cons action rest induction =>
      rcases bind_eq_ok.mp done with ⟨⟨here, left⟩, preparedHere, done⟩
      rcases bind_eq_ok.mp done with ⟨⟨tail, last⟩, preparedTail, done⟩
      cases done
      rcases bind_eq_ok.mp preparedHere with ⟨⟨scopes, keys, reached⟩, updates, preparedHere⟩
      cases preparedHere
      intro own member
      rcases List.mem_cons.mp member with same | later
      · rw [same]
        exact ⟨length_prepareUpdates updates, rfl⟩
      · exact induction preparedTail own later

/-! ## One Action of a flush -/

theorem resolveCached_actionOpts (opts : ResolveOpts) (updates : List ValidatedUpdate)
    {key : ScopeKey} (apart : ∀ id, key ≠ .byId "relationship" id) :
    resolveCached (actionOpts opts updates) key = resolveCached opts key := by
  cases key with
  | source entityId => rfl
  | byId subjectType subjectId =>
      have other : subjectType ≠ "relationship" := by
        rintro rfl
        exact apart subjectId rfl
      rw [resolveCached, resolveCached]
      unfold EntityIndex.resolveGroupsCached
      split
      · rfl
      · rfl
      · exact absurd rfl other
      · rfl
      · rfl

/-- An Action before this one in the flush asked for the relationship by its id. -/
def Asked (opts : ResolveOpts) (earlier : List ValidatedAction) (id : String) : Prop :=
  ∃ action ∈ earlier, ∃ update ∈ action.updates, AsksById opts update id

theorem Remembers.enter (remembers : Remembers memo opts others fun _ => False)
    (updates : List ValidatedUpdate) : Remembers memo (actionOpts opts updates) others own where
  current key value found unasked := by
    have apart : ∀ id, key ≠ .byId "relationship" id := by
      rintro id rfl
      rcases remembers.known id (by rw [found]; rfl) with asked | impossible
      · exact unasked id rfl asked
      · exact impossible
    rw [resolveCached_actionOpts opts updates apart]
    exact remembers.current key value found unasked
  known id found := .inl ((remembers.known id found).resolve_right fun impossible => impossible)

theorem Remembers.leave {updates : List ValidatedUpdate}
    (remembers : Remembers memo (actionOpts opts updates) others own) :
    Remembers memo opts (fun id => others id ∨ own id) fun _ => False where
  current key value found unasked := by
    have apart : ∀ id, key ≠ .byId "relationship" id := by
      rintro id rfl
      exact unasked id rfl (remembers.known id (by rw [found]; rfl))
    rw [← resolveCached_actionOpts opts updates apart]
    exact remembers.current key value found fun id same => absurd same (apart id)
  known id found := .inl (remembers.known id found)

theorem remembers_prepareAction {action : ValidatedAction} {prepared : PreparedAction}
    (remembers : Remembers memo opts others fun _ => False)
    (done : prepareAction action opts memo = .ok (prepared, next)) :
    (Remembers next opts
        (fun id => others id ∨ ∃ update ∈ action.updates, AsksById opts update id) fun _ => False) ∧
      ((∀ update ∈ action.updates, ∀ id, AsksById opts update id → ¬ others id) →
        action.updates.mapM (EntityIndex.fanOutGroups (actionOpts opts action.updates)) =
          .ok prepared.updateScopes) := by
  rcases bind_eq_ok.mp done with ⟨⟨scopes, keys, last⟩, updates, done⟩
  cases done
  have entered : Remembers memo (actionOpts opts action.updates) others
      fun id => ∃ update ∈ action.updates, AsksById opts update id := remembers.enter _
  have resolved := remembers_prepareUpdates entered (fun update member id asks =>
    ⟨update, member, asks⟩) updates
  exact ⟨resolved.1.leave, resolved.2⟩

theorem prepareActions_append {earlier later : List ValidatedAction} {action : ValidatedAction}
    {prepared : List PreparedAction}
    (done : prepareActions opts (earlier ++ action :: later) memo = .ok (prepared, next)) :
    ∃ first own rest reached left, prepared = first ++ own :: rest ∧
      first.length = earlier.length ∧
      prepareActions opts earlier memo = .ok (first, reached) ∧
      prepareAction action opts reached = .ok (own, left) := by
  induction earlier generalizing memo prepared with
  | nil =>
      rcases bind_eq_ok.mp done with ⟨⟨own, left⟩, here, done⟩
      rcases bind_eq_ok.mp done with ⟨⟨rest, last⟩, _, done⟩
      cases done
      exact ⟨[], own, rest, memo, left, rfl, rfl, rfl, here⟩
  | cons head earlier induction =>
      rcases bind_eq_ok.mp done with ⟨⟨headPrepared, afterHead⟩, here, done⟩
      rcases bind_eq_ok.mp done with ⟨⟨tail, last⟩, preparedTail, done⟩
      cases done
      rcases induction preparedTail with ⟨first, own, rest, reached, left, same, length, before,
        action⟩
      refine ⟨headPrepared :: first, own, rest, reached, left, by rw [same]; rfl,
        congrArg Nat.succ length, ?_, action⟩
      rw [prepareActions, here]
      change (prepareActions opts earlier afterHead >>= _) = _
      rw [before]
      rfl

theorem remembers_prepareActions {actions : List ValidatedAction} {prepared : List PreparedAction}
    (remembers : Remembers memo opts others fun _ => False)
    (done : prepareActions opts actions memo = .ok (prepared, next)) :
    Remembers next opts (fun id => others id ∨ Asked opts actions id) fun _ => False := by
  induction actions generalizing memo prepared others with
  | nil =>
      cases done
      simpa [Asked] using remembers
  | cons action rest induction =>
      rcases bind_eq_ok.mp done with ⟨⟨own, left⟩, here, done⟩
      rcases bind_eq_ok.mp done with ⟨⟨tail, last⟩, preparedTail, done⟩
      cases done
      have tail := induction (remembers_prepareAction remembers here).1 preparedTail
      simpa [Asked, or_assoc] using tail

/-- The scopes of an Action in a flush, where no earlier Action of it asked for one of its
relationships by the same id. -/
theorem scopes_flushed {earlier later : List ValidatedAction} {action : ValidatedAction}
    {caches : SystemCaches} {overlay : Overlay} {prepared : List PreparedAction}
    {mutations : List Mutation} {planned : Overlay}
    (flushed : prepare (earlier ++ action :: later) caches overlay =
      .ok (prepared, mutations, planned)) :
    ∃ own, prepared[earlier.length]? = some own ∧
      ((∀ update ∈ action.updates, ∀ id, AsksById (resolveOpts caches overlay) update id →
          ¬ Asked (resolveOpts caches overlay) earlier id) →
        action.updates.mapM (EntityIndex.fanOutGroups
          (actionOpts (resolveOpts caches overlay) action.updates)) = .ok own.updateScopes) := by
  rcases bind_eq_ok.mp flushed with ⟨⟨actions, memo⟩, preparedActions, flushed⟩
  rcases bind_eq_ok.mp flushed with ⟨_, _, flushed⟩
  cases flushed
  rcases prepareActions_append preparedActions with ⟨first, own, rest, reached, left, same, length,
    before, here⟩
  have remembered := remembers_prepareActions (remembers_empty _ (fun _ => False) _) before
  refine ⟨own, ?_, fun free => ?_⟩
  · rw [same, ← length, List.getElem?_append_right (Nat.le_refl _), Nat.sub_self,
      List.getElem?_cons_zero]
  · apply (remembers_prepareAction remembered here).2
    intro update member id asks asked
    exact free update member id asks (asked.resolve_left fun impossible => impossible)

end Writer

end Ebb.Access
