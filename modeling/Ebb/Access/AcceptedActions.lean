import Ebb.Access.Authorizer

namespace Ebb.Access

namespace Authorizer

open PermissionHelper

/-! What the Authorizer has established of the Actions it accepts. -/

def updatesOf (actions : List ValidatedAction) : List ValidatedUpdate :=
  actions.flatMap (·.updates)

/-- The request's knowledge once all of `actions` are accepted in order. -/
def acceptAll (caches : SystemCaches) (actorId : String) (actions : List ValidatedAction) :
    Outcome RequestSim :=
  actions.foldlM (authorizeAction caches actorId) newSim

variable {caches : SystemCaches} {actorId : String} {actions : List ValidatedAction}
  {sim : RequestSim} {permissionsOf : Term → Outcome (Option (List Permission))} {type : String}
  {groupId : Term} {authz : Authz} {updates : List ValidatedUpdate} {next : RequestSim}
  {update : ValidatedUpdate}

theorem acceptAll_of_authorize {accepted : List ValidatedAction} {rejected : List Rejection}
    (authorized : authorize actions actorId caches = .ok (accepted, rejected)) :
    ∃ sim, acceptAll caches actorId accepted = .ok sim := by
  have general : ∀ (actions : List ValidatedAction) (sim : RequestSim)
      (accepted : List ValidatedAction) (rejected : List Rejection),
      authorizeFrom caches actorId sim actions = .ok (accepted, rejected) →
        ∃ final, accepted.foldlM (authorizeAction caches actorId) sim = .ok final := by
    intro actions
    induction actions with
    | nil =>
        intro sim accepted rejected done
        cases done
        exact ⟨sim, rfl⟩
    | cons action rest induction =>
        intro sim accepted rejected done
        rw [authorizeFrom] at done
        split at done
        · next next step =>
            rcases bind_eq_ok.mp done with ⟨later, authorizedRest, finished⟩
            cases finished
            rcases induction next later.1 later.2 authorizedRest with ⟨final, accepts⟩
            refine ⟨final, ?_⟩
            rw [List.foldlM_cons, step]
            exact accepts
        · rcases bind_eq_ok.mp done with ⟨later, authorizedRest, finished⟩
          cases finished
          exact induction sim later.1 later.2 authorizedRest
        · cases done
  exact general actions newSim accepted rejected authorized

theorem acceptAll_concat {action : ValidatedAction}
    (accepts : acceptAll caches actorId (actions ++ [action]) = .ok sim) :
    ∃ before, acceptAll caches actorId actions = .ok before ∧
      authorizeAction caches actorId before action = .ok sim := by
  rw [acceptAll, List.foldlM_append] at accepts
  rcases bind_eq_ok.mp accepts with ⟨before, acceptsBefore, step⟩
  rw [List.foldlM_cons] at step
  rcases bind_eq_ok.mp step with ⟨next, step, finished⟩
  cases finished
  exact ⟨before, acceptsBefore, step⟩

/-! ## Refusals -/

theorem ite_refuse_eq_ok {condition : Prop} [Decidable condition] {reason details : String}
    {value result : α} :
    (if condition then refuse reason details else .ok value) = .ok result ↔
      ¬ condition ∧ value = result := by
  split
  · next holds => simp [refuse, holds]
  · next fails => simp [fails]

theorem ite_ok_refuse_eq_ok {condition : Prop} [Decidable condition] {reason details : String}
    {value result : α} :
    (if condition then .ok value else refuse reason details) = .ok result ↔
      condition ∧ value = result := by
  split
  · next holds => simp [holds]
  · next fails => simp [refuse, fails]

theorem anyOf_eq_true {holds : α → Outcome Bool} {items : List α}
    (found : anyOf holds items = .ok true) : ∃ item ∈ items, holds item = .ok true := by
  induction items with
  | nil => cases found
  | cons item rest induction =>
      rw [anyOf] at found
      rcases bind_eq_ok.mp found with ⟨here, answer, later⟩
      cases here with
      | true => exact ⟨item, List.mem_cons_self, answer⟩
      | false =>
          rcases induction later with ⟨other, member, answer⟩
          exact ⟨other, List.mem_cons_of_mem item member, answer⟩

/-- Some group's permissions include the one asked for. -/
def Granted (permissionsOf : Term → Outcome (Option (List Permission))) (groupId : Term)
    (type permission : String) : Prop :=
  ∃ permissions, permissionsOf groupId = .ok (some permissions) ∧
    checkPermission permissions type permission = true

theorem granted_of_checkGroupPermission {groupIds : List Term} {permission : String}
    (checked : checkGroupPermission permissionsOf groupIds type permission = .ok ()) :
    ∃ groupId ∈ groupIds, Granted permissionsOf groupId type permission := by
  rw [checkGroupPermission] at checked
  rcases bind_eq_ok.mp checked with ⟨found, any, verdict⟩
  cases found with
  | false => cases verdict
  | true =>
      rcases anyOf_eq_true any with ⟨groupId, member, grants⟩
      rcases bind_eq_ok.mp grants with ⟨permissions, read, grants⟩
      cases permissions with
      | none => cases grants
      | some permissions =>
          exact ⟨groupId, (List.mem_filter.mp member).1, permissions, read,
            Except.ok.inj grants⟩

theorem granted_of_checkEveryGroupPermission {groupIds : List Term} {permission : String}
    (checked : checkEveryGroupPermission permissionsOf type permission groupIds = .ok ())
    (member : groupId ∈ groupIds) :
    Granted permissionsOf groupId type permission := by
  induction groupIds with
  | nil => cases member
  | cons head rest induction =>
      rw [checkEveryGroupPermission] at checked
      rcases bind_eq_ok.mp checked with ⟨_, here, later⟩
      rcases List.mem_cons.mp member with equal | member
      · rcases granted_of_checkGroupPermission here with ⟨only, inHead, granted⟩
        rw [equal, ← List.mem_singleton.mp inHead]
        exact granted
      · exact induction later member

/-! ## One accepted Action -/

theorem checkAllUpdates_eq_ok :
    checkAllUpdates actorId authz updates = .ok () ↔
      ∀ update ∈ updates, checkUpdate actorId authz update = .ok () := by
  induction updates with
  | nil => simp [checkAllUpdates]
  | cons update rest induction =>
      rw [checkAllUpdates, bind_eq_ok, List.forall_mem_cons]
      constructor
      · intro found
        rcases found with ⟨_, here, later⟩
        exact ⟨here, induction.mp later⟩
      · exact fun both => ⟨(), both.1, induction.mpr both.2⟩

/-- What accepting an Action checked, and what of it the request remembers. -/
structure Accepts (caches : SystemCaches) (actorId : String) (sim : RequestSim)
    (action : ValidatedAction) (next : RequestSim) : Prop where
  checked : ∀ update ∈ action.updates,
    checkUpdate actorId (buildAuthz caches actorId sim action.updates) update = .ok ()
  additions : next.additions =
    mergeAdditions sim.additions (buildIntraActionContext action.updates)
  removals : next.removals = mergeRemovals sim.removals
    (deletedGroupIds (resolveDeletedMemberships action.updates (tableOpts caches)))
  owned : ∀ entityId, (next.additions.contains entityId || next.removals.contains entityId) →
    resultingGroups entityId next.additions next.removals (tableOpts caches) ≠ []
  counted : ∃ before after, before.memberOverlay = sim.memberOverlay ∧
    before.membersByGroup = sim.membersByGroup ∧
    (action.updates.filter fun update => update.subjectType = "groupMember").foldlM
      (applyGroupMember (buildAuthz caches actorId sim action.updates)) before = .ok after ∧
    next.memberOverlay = after.memberOverlay ∧ next.membersByGroup = after.membersByGroup
  capable : ∀ groupId members, next.membersByGroup.get? groupId = some members →
    capableGroup members = true
  types : next.types = (createdEntityTypes action.updates).merge sim.types
  deletedRelationships : next.deletedRelationships =
    sim.deletedRelationships ++ deletedRelationshipIds action.updates

theorem checkMembershipRows_fields (checked : checkMembershipRows authz sim = .ok next) :
    next.additions = sim.additions ∧ next.removals = sim.removals ∧
      next.memberOverlay = sim.memberOverlay ∧ next.membersByGroup = sim.membersByGroup := by
  have general : ∀ (updates : List ValidatedUpdate) (before : RequestSim),
      updates.foldlM (applyMembershipPut authz) before = .ok next →
        next.additions = before.additions ∧ next.removals = before.removals ∧
          next.memberOverlay = before.memberOverlay ∧
          next.membersByGroup = before.membersByGroup := by
    intro updates
    induction updates with
    | nil =>
        intro before done
        cases done
        exact ⟨rfl, rfl, rfl, rfl⟩
    | cons update rest induction =>
        intro before done
        rw [List.foldlM_cons] at done
        rcases bind_eq_ok.mp done with ⟨middle, step, later⟩
        have after := induction middle later
        rcases bind_eq_ok.mp step with ⟨entityId, _, step⟩
        rcases bind_eq_ok.mp step with ⟨groupId, _, step⟩
        split at step
        · cases step
          exact after
        · rw [ite_refuse_eq_ok] at step
          rw [← step.2] at after
          exact after
  have fields := general _ _ checked
  exact fields

theorem applyGroupMember_fields (applied : applyGroupMember authz sim update = .ok next) :
    next.additions = sim.additions ∧ next.removals = sim.removals := by
  have moved : ∀ (existing : Option MemberRow) (row : MemberRow),
      (removeMovedMember sim update.subjectId existing row authz).additions = sim.additions ∧
        (removeMovedMember sim update.subjectId existing row authz).removals =
          sim.removals := by
    intro existing row
    cases existing with
    | none => exact ⟨rfl, rfl⟩
    | some previous =>
        simp only [removeMovedMember]
        split
        · exact ⟨rfl, rfl⟩
        · exact ⟨rfl, rfl⟩
  rw [applyGroupMember] at applied
  split at applied
  · split at applied
    · cases applied
      exact ⟨rfl, rfl⟩
    · cases applied
      exact ⟨rfl, rfl⟩
  · rcases bind_eq_ok.mp applied with ⟨groupId, _, applied⟩
    split at applied
    · cases applied
      exact ⟨rfl, rfl⟩
    · rcases bind_eq_ok.mp applied with ⟨permissions, _, applied⟩
      cases applied
      exact moved _ ⟨groupId, permissions⟩

theorem foldlM_applyGroupMember_fields
    (applied : updates.foldlM (applyGroupMember authz) sim = .ok next) :
    next.additions = sim.additions ∧ next.removals = sim.removals := by
  induction updates generalizing sim with
  | nil =>
      cases applied
      exact ⟨rfl, rfl⟩
  | cons update rest induction =>
      rw [List.foldlM_cons] at applied
      rcases bind_eq_ok.mp applied with ⟨middle, step, later⟩
      have here := applyGroupMember_fields step
      have after := induction later
      exact ⟨after.1.trans here.1, after.2.trans here.2⟩

theorem accepts_of_authorizeAction {action : ValidatedAction}
    (authorized : authorizeAction caches actorId sim action = .ok next) :
    Accepts caches actorId sim action next := by
  rw [authorizeAction] at authorized
  rcases bind_eq_ok.mp authorized with ⟨_, checked, authorized⟩
  rcases bind_eq_ok.mp authorized with ⟨filed, filedOk, authorized⟩
  rcases bind_eq_ok.mp authorized with ⟨owned, ownedOk, authorized⟩
  rcases bind_eq_ok.mp authorized with ⟨counted, countedOk, authorized⟩
  cases authorized
  have kept := checkMembershipRows_fields filedOk
  rw [checkLastMembership, ite_refuse_eq_ok, kept.1, kept.2.1] at ownedOk
  rcases ownedOk with ⟨noOrphan, equal⟩
  subst equal
  rw [checkLastGroupMember] at countedOk
  rcases bind_eq_ok.mp countedOk with ⟨folded, foldOk, verdict⟩
  rw [ite_refuse_eq_ok] at verdict
  rcases verdict with ⟨noIncapable, equal⟩
  subst equal
  have fields := foldlM_applyGroupMember_fields foldOk
  constructor
  case checked => exact checkAllUpdates_eq_ok.mp checked
  case additions => exact fields.1
  case removals => exact fields.2
  case owned =>
    intro entityId touched none
    dsimp only at touched none
    rw [fields.1, fields.2] at touched none
    apply noOrphan
    rw [List.any_eq_true]
    refine ⟨entityId, ?_, decide_eq_true none⟩
    rw [List.mem_eraseDups, List.mem_append, OrderedMap.mem_keys_iff, OrderedMap.mem_keys_iff,
      ← Option.isSome_iff_exists, ← Option.isSome_iff_exists]
    exact Bool.or_eq_true_iff.mp touched
  case counted =>
    refine Exists.intro _ ⟨folded, ?_, ?_, foldOk, rfl, rfl⟩
    · exact kept.2.2.1
    · exact kept.2.2.2
  case capable =>
    intro groupId members stored
    have entry := (OrderedMap.get?_eq_some_iff _ _ _).mp stored
    cases capable : capableGroup members with
    | true => rfl
    | false =>
        exfalso
        apply noIncapable
        rw [List.any_eq_true]
        exact ⟨(groupId, members), entry, by simp [capable]⟩
  case types => rfl
  case deletedRelationships => rfl

/-! ## Membership rows -/

theorem membership_tableOpts (caches : SystemCaches) (membershipId : String) :
    EntityIndex.membership (tableOpts caches) membershipId =
      (caches.entityGroups.getEntityGroup membershipId).map
        fun row => (row.entityId, row.groupId) := by
  change (caches.entityGroups.getEntityGroup membershipId).map
    (fun row => (row.entityId.or .null, row.groupId.or .null)) = _
  cases stored : caches.entityGroups.getEntityGroup membershipId with
  | none => rfl
  | some row =>
      have named := caches.entityGroups.named stored
      simp only [Option.map_some, Term.or_null_of_truthy named.2.1,
        Term.or_null_of_truthy named.2.2]

theorem get?_resolveDeletedMemberships (updates : List ValidatedUpdate) (opts : ResolveOpts)
    (id : String) :
    (resolveDeletedMemberships updates opts).get? id =
      if (deletesOf "entityGroup" updates).any fun update => update.subjectId = id then
        some (EntityIndex.membership opts id)
      else none := by
  rw [resolveDeletedMemberships, OrderedMap.get?_foldl_set, OrderedMap.get?_empty, Option.or_none]
  split
  · next named =>
      rw [List.any_eq_true] at named
      rcases named with ⟨update, member, same⟩
      cases found : lastSome (fun update : ValidatedUpdate =>
          if update.subjectId = id then some (EntityIndex.membership opts update.subjectId)
          else none) (deletesOf "entityGroup" updates) with
      | none =>
          have unread := lastSome_eq_none.mp found update member
          rw [if_pos (of_decide_eq_true same)] at unread
          cases unread
      | some pair =>
          rcases exists_of_lastSome found with ⟨other, _, reads⟩
          split at reads
          · next sameId =>
              cases reads
              rw [sameId]
          · cases reads
  · next unnamed =>
      rw [lastSome_eq_none]
      intro update member
      rw [if_neg]
      intro same
      apply unnamed
      rw [List.any_eq_true]
      exact ⟨update, member, decide_eq_true same⟩

theorem mem_deletesOf :
    update ∈ deletesOf type updates ↔
      update ∈ updates ∧ update.subjectType = type ∧ update.method = .delete := by
  rw [deletesOf, List.mem_filter, decide_eq_true_eq]

theorem mem_deletedGroupIds (member : update ∈ deletesOf "entityGroup" updates) {row : EntityGroup}
    (stored : caches.entityGroups.getEntityGroup update.subjectId = some row) :
    row.groupId ∈ ((deletedGroupIds
      (resolveDeletedMemberships updates (tableOpts caches))).get? row.entityId).getD [] := by
  have named : (deletesOf "entityGroup" updates).any
      (fun other => other.subjectId = update.subjectId) = true := by
    rw [List.any_eq_true]
    exact ⟨update, member, decide_eq_true rfl⟩
  have entry : (resolveDeletedMemberships updates (tableOpts caches)).get? update.subjectId =
      some (some (row.entityId, row.groupId)) := by
    rw [get?_resolveDeletedMemberships, if_pos named, membership_tableOpts, stored]
    rfl
  rw [OrderedMap.get?_eq_some_iff] at entry
  rw [deletedGroupIds, OrderedMap.mem_foldl_collect (fun _ _ _ => List.mem_cons)]
  exact .inl ⟨(row.entityId, row.groupId), List.mem_filterMap.mpr
    ⟨_, List.mem_map.mpr ⟨_, entry, rfl⟩, rfl⟩, rfl, rfl⟩

def files (entityId groupId : Term) (update : ValidatedUpdate) : Prop :=
  isPutOf update "entityGroup" = true ∧ getDataField update "entity_id" = entityId ∧
    getDataField update "group_id" = groupId

theorem mem_buildIntraActionContext {entityId : Term} :
    groupId ∈ ((buildIntraActionContext updates).get? entityId).getD [] ↔
      entityId.truthy = true ∧ groupId.truthy = true ∧
        ∃ update ∈ updates, files entityId groupId update := by
  have collected := @OrderedMap.mem_foldl_collect Term Term ValidatedUpdate _
    (fun value values => (value :: values).eraseDups)
    (fun _ _ _ => by rw [List.mem_eraseDups, List.mem_cons])
    (fun update => getDataField update "entity_id")
    (fun update => getDataField update "group_id")
    (updates.filter fun update =>
      isPutOf update "entityGroup" && (getDataField update "entity_id").truthy &&
        (getDataField update "group_id").truthy) .empty entityId groupId
  apply collected.trans
  simp only [OrderedMap.get?_empty, Option.getD_none, List.not_mem_nil, or_false,
    List.mem_filter, Bool.and_eq_true, files]
  constructor
  · intro found
    rcases found with ⟨update, ⟨member, ⟨isPut, entity⟩, group⟩, sameEntity, sameGroup⟩
    subst sameEntity
    subst sameGroup
    exact ⟨entity, group, update, member, isPut, rfl, rfl⟩
  · intro found
    rcases found with ⟨entity, group, update, member, isPut, sameEntity, sameGroup⟩
    subst sameEntity
    subst sameGroup
    exact ⟨update, ⟨member, ⟨isPut, entity⟩, group⟩, rfl, rfl⟩

theorem checkUpdate_eq_ok (checked : checkUpdate actorId authz update = .ok ()) :
    checkUpdateRowIdentity update authz = .ok () ∧
      checkUpdateTypeIdentity update authz = .ok () ∧
      (bootstrapUpdate update actorId authz.bootstrap authz.createdIds
          authz.bootstrapMembershipIds = true ∨
        authorizeUpdate update actorId authz = .ok ()) := by
  rw [checkUpdate] at checked
  rcases bind_eq_ok.mp checked with ⟨_, identity, checked⟩
  rcases bind_eq_ok.mp checked with ⟨_, type, authorized⟩
  refine ⟨identity, type, ?_⟩
  rw [authorizeOrExempt] at authorized
  split at authorized
  · next exempt => exact .inl exempt
  · exact .inr authorized

theorem isPutOf_iff :
    isPutOf update type = true ↔ update.subjectType = type ∧ update.method = .put := by
  rw [isPutOf, decide_eq_true_eq]

theorem isBinary_of_holds {ids : List String} {term : Term} (held : holds ids term = true) :
    term.isBinary = true := by
  cases term with
  | string id => rfl
  | _ => cases held

theorem truthy_of_isBinary {term : Term} (binary : term.isBinary = true) : term.truthy = true := by
  cases term with
  | string id => rfl
  | _ => cases binary

theorem bootstrap_group {known : String → Bool}
    (declared : (bootstrapGroupPermissions updates actorId known).contains groupId = true) :
    holds (bootstrappedGroupIds updates known) groupId = true := by
  rw [OrderedMap.contains, bootstrapGroupPermissions, OrderedMap.get?_foldl_set,
    OrderedMap.get?_empty, Option.or_none, Option.isSome_iff_exists] at declared
  rcases declared with ⟨permissions, found⟩
  rcases exists_of_lastSome found with ⟨update, member, reads⟩
  split at reads
  · next same =>
      rw [List.mem_filter, ownGroupMemberPut, Bool.and_eq_true] at member
      exact same ▸ member.2.2
  · cases reads

/-- What holds of an accepted `entityGroup` Update: a put names strings and keeps the
entity of its row, a delete has a row, and there is no patch. -/
structure MembershipAccepted (caches : SystemCaches) (update : ValidatedUpdate) : Prop where
  noPatch : update.method ≠ .patch
  put : update.method = .put →
    (fieldOf update.data "entity_id").truthy = true ∧
      (fieldOf update.data "group_id").truthy = true ∧
      ∀ row, caches.entityGroups.getEntityGroup update.subjectId = some row →
        row.entityId = fieldOf update.data "entity_id"
  delete : update.method = .delete →
    ∃ row, caches.entityGroups.getEntityGroup update.subjectId = some row

theorem membershipAccepted_of_checkUpdate (type : update.subjectType = "entityGroup")
    (checked : checkUpdate actorId (buildAuthz caches actorId sim updates) update = .ok ()) :
    MembershipAccepted caches update := by
  rcases checkUpdate_eq_ok checked with ⟨identity, _, authorized⟩
  have exemptPut : bootstrapUpdate update actorId
      (buildAuthz caches actorId sim updates).bootstrap
      (buildAuthz caches actorId sim updates).createdIds
      (buildAuthz caches actorId sim updates).bootstrapMembershipIds = true →
      update.method = .put ∧ (fieldOf update.data "entity_id").isBinary = true ∧
        (fieldOf update.data "group_id").isBinary = true := by
    intro exempt
    simp only [bootstrapUpdate, isPutOf, type, Bool.or_eq_true, Bool.and_eq_true,
      decide_eq_true_eq] at exempt
    rcases exempt with (⟨⟨impossible, _⟩, _⟩ | ⟨⟨⟨impossible, _⟩, _⟩, _⟩) | ⟨⟨put, declared⟩, created⟩
    · exact absurd impossible (by decide)
    · exact absurd impossible (by decide)
    · exact ⟨put.2, isBinary_of_holds created, isBinary_of_holds (bootstrap_group declared)⟩
  constructor
  case noPatch =>
    intro method
    rcases authorized with exempt | authorized
    · exact absurd ((exemptPut exempt).1.symm.trans method) (by decide)
    · simp only [authorizeUpdate, type, authorizeEntityGroupUpdate, method, refuse] at authorized
      cases authorized
  case put =>
    intro method
    have strings : (fieldOf update.data "entity_id").isBinary = true ∧
        (fieldOf update.data "group_id").isBinary = true := by
      rcases authorized with exempt | authorized
      · exact (exemptPut exempt).2
      · simp only [authorizeUpdate, type, authorizeEntityGroupUpdate, method] at authorized
        rcases bind_eq_ok.mp authorized with ⟨ends, named, _⟩
        rw [membershipIdentity] at named
        rcases bind_eq_ok.mp named with ⟨entityId, readEntity, named⟩
        rcases bind_eq_ok.mp named with ⟨groupId, readGroup, named⟩
        rw [ite_ok_refuse_eq_ok] at named
        rw [Fields.get_eq_ok] at readEntity readGroup
        rw [readEntity.2, readGroup.2]
        simp only [Bool.and_eq_true] at named
        exact ⟨named.1.1.1.1, named.1.1.2⟩
    refine ⟨truthy_of_isBinary strings.1, truthy_of_isBinary strings.2, ?_⟩
    intro row stored
    simp only [checkUpdateRowIdentity, type, method] at identity
    rcases bind_eq_ok.mp identity with ⟨entityId, read, identity⟩
    rw [Fields.get_eq_ok] at read
    rw [checkMembershipRowEntity] at identity
    have found : EntityIndex.membership (buildAuthz caches actorId sim updates).opts
        update.subjectId = some (row.entityId, row.groupId) := by
      have read := membership_tableOpts caches update.subjectId
      rw [stored] at read
      exact read
    rw [found] at identity
    dsimp only at identity
    rw [ite_ok_refuse_eq_ok] at identity
    exact identity.1.trans read.2.symm
  case delete =>
    intro method
    rcases authorized with exempt | authorized
    · exact absurd ((exemptPut exempt).1.symm.trans method) (by decide)
    · simp only [authorizeUpdate, type, authorizeEntityGroupUpdate, method] at authorized
      split at authorized
      · next found =>
          have entry : (resolveDeletedMemberships updates (tableOpts caches)).get?
              update.subjectId = some (some _) := found
          rw [get?_resolveDeletedMemberships] at entry
          split at entry
          · rw [membership_tableOpts, Option.some.injEq, Option.map_eq_some_iff] at entry
            rcases entry with ⟨row, stored, _⟩
            exact ⟨row, stored⟩
          · cases entry
      · cases authorized

end Authorizer

end Ebb.Access
