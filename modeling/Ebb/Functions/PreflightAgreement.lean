import Ebb.Functions.Preflight

namespace Ebb.Functions

open Access

/-! Where the pre-flight refuses a verb, the server's Authorizer refuses the Action that
the verb would complete, as long as the invocation has seen the rows the server counts. -/

/-! ## What a buffer says of a row -/

/-- The group a `groupMember` write names. -/
def namedGroup (update : Update Term) : Option String :=
  if update.subjectType = "groupMember" ∧ update.method ≠ .delete then
    stringField (readFields update) "group_id"
  else none

/-- The group and the entity an `entityGroup` write names. -/
def filedPair (update : Update Term) : Option (String × String) :=
  if update.subjectType = "entityGroup" ∧ update.method ≠ .delete then
    match stringField (readFields update) "group_id",
        stringField (readFields update) "entity_id" with
    | some groupId, some entityId => some (groupId, entityId)
    | _, _ => none
  else none

def namedPermissions (update : Update Term) : List String :=
  (stringListField (readFields update) "permissions").getD []

/-- The write deletes a member row or names its group. -/
def settlesMember (update : Update Term) : Bool :=
  update.subjectType = "groupMember" ∧ (update.method = .delete ∨ (namedGroup update).isSome)

def writesTo (id : String) (updates : List (Update Term)) : List (Update Term) :=
  updates.filter fun update => update.subjectId = id

/-- The group the last write that names one puts a member row in. -/
def memberGroupOf (updates : List (Update Term)) (id : String) : Option String :=
  ((writesTo id updates).filterMap namedGroup).getLast?

/-- The group and the entity of a membership row, by the last write that names both. -/
def filingOf (updates : List (Update Term)) (id : String) : Option (String × String) :=
  ((writesTo id updates).filterMap filedPair).getLast?

/-- The permissions a member row has in a group, by the last write that deletes it or
names its group. -/
def grantOf (updates : List (Update Term)) (id groupId : String) : Option (List String) :=
  match ((writesTo id updates).filter settlesMember).getLast? with
  | none => none
  | some update =>
      if namedGroup update = some groupId then some (namedPermissions update) else none

open Authorizer in
/-- Every other member row that the server counts in the group with a permission, the
invocation has seen there with one. -/
def MembersSeen (caches : SystemCaches) (updates : List (Update Term)) (id groupId : String) :
    Prop :=
  ∀ other permissions, other ≠ id →
    countedRow caches (updates.map wireUpdate) other = some ⟨.string groupId, permissions⟩ →
      permissions ≠ [] → ∃ granted, grantOf updates other groupId = some granted ∧ granted ≠ []

/-- The membership row is not committed for the entity that the invocation filed. -/
def FiledAnew (caches : SystemCaches) (updates : List (Update Term)) (id : String) : Prop :=
  ∀ pair row, filingOf updates id = some pair →
    caches.entityGroups.getEntityGroup id = some row → row.entityId ≠ .string pair.2

/-- The verbs whose pre-flight sees what the server sees. -/
def Seen (caches : SystemCaches) (updates : List (Update Term)) : Verb → Prop
  | .create _ | .relate _ => True
  | .update entity id _ _ _ =>
      entity = "groupMember" →
        ∀ groupId, memberGroupOf updates id = some groupId → MembersSeen caches updates id groupId
  | .delete entity id _ =>
      (entity = "groupMember" → ∀ groupId, memberGroupOf updates id = some groupId →
        MembersSeen caches updates id groupId) ∧
      (entity = "entityGroup" → FiledAnew caches updates id)

/-- The Authorizer accepts no Action made of these Updates. -/
def Rejects (caches : SystemCaches) (actorId : String) (updates : List (Update Term)) : Prop :=
  ∀ id hlc sim,
    Authorizer.authorizeAction caches actorId Authorizer.newSim
      (commitAction id actorId hlc updates) ≠ .ok sim

/-! ## The indexes of the surface -/

namespace WriteSurface

variable (surface : WriteSurface Term)

theorem memberGroup_recordUpdate (update : Update Term) :
    (surface.recordUpdate update).memberGroup =
      match namedGroup update with
      | some groupId => surface.memberGroup.set update.subjectId groupId
      | none => surface.memberGroup := by
  simp only [recordUpdate, indexWrite, namedGroup]
  by_cases member : update.subjectType = "groupMember"
  · simp only [member, String.reduceEq, if_false, if_true, indexGroupMember, true_and]
    by_cases deletes : update.method = .delete
    · simp only [deletes, if_true, ne_eq, not_true, if_false]
      repeat' split
      all_goals rfl
    · simp only [deletes, if_false, ne_eq, not_false_eq_true, if_true]
      cases stringField (readFields update) "group_id" <;> rfl
  · simp only [member, if_false, false_and]
    simp only [indexEntityGroup, indexRelationship, indexGroup, removeGroup, markEdgeGone,
      addGroup]
    split_ifs <;> repeat' split
    all_goals rfl

theorem memberships_recordUpdate (update : Update Term) :
    ((surface.recordUpdate update).membershipGroup,
        (surface.recordUpdate update).membershipEntity) =
      match filedPair update with
      | some pair =>
          (surface.membershipGroup.set update.subjectId pair.1,
            surface.membershipEntity.set update.subjectId pair.2)
      | none => (surface.membershipGroup, surface.membershipEntity) := by
  simp only [recordUpdate, indexWrite, filedPair]
  by_cases membership : update.subjectType = "entityGroup"
  · simp only [membership, if_true, indexEntityGroup, true_and]
    by_cases deletes : update.method = .delete
    · simp only [deletes, if_true, ne_eq, not_true, if_false, removeGroup]
      repeat' split
      all_goals rfl
    · simp only [deletes, if_false, ne_eq, not_false_eq_true, if_true]
      cases stringField (readFields update) "group_id" <;>
        cases stringField (readFields update) "entity_id" <;> rfl
  · simp only [membership, if_false, false_and]
    simp only [indexRelationship, indexGroup, indexGroupMember, markEdgeGone, addGroup]
    split_ifs <;> repeat' split
    all_goals rfl

def listed (surface : WriteSurface Term) (groupId id : String) : Option (List String) :=
  (surface.membersByGroup.get? groupId).bind fun roster => roster.get? id

theorem listed_recordUpdate_of_ne {update : Update Term} {id : String}
    (other : update.subjectId ≠ id) (groupId : String) :
    (surface.recordUpdate update).listed groupId id = surface.listed groupId id := by
  have kept : ∀ (group : String) (roster : OrderedMap String (List String)),
      (∀ held, surface.membersByGroup.get? group = some held → roster.get? id = held.get? id) →
      (surface.membersByGroup.get? group = none → roster.get? id = none) →
      ((surface.membersByGroup.set group roster).get? groupId).bind (fun roster => roster.get? id) =
        surface.listed groupId id := by
    intro group roster same absent
    rw [listed, OrderedMap.get?_set]
    by_cases equal : groupId = group
    · rw [if_pos equal, equal, Option.bind_some]
      cases found : surface.membersByGroup.get? group with
      | none => exact absent found
      | some held => exact same held found
    · rw [if_neg equal]
  have different : id ≠ update.subjectId := fun equal => other equal.symm
  by_cases member : update.subjectType = "groupMember"
  · simp only [listed, recordUpdate, indexWrite, member, String.reduceEq, if_false, if_true,
      indexGroupMember]
    by_cases deletes : update.method = .delete
    · simp only [deletes, if_true]
      split
      · rfl
      · next group found =>
        split
        · rfl
        · next roster held =>
          apply kept
          · intro other found
            rw [held] at found
            rw [OrderedMap.get?_erase, if_neg different, Option.some.inj found]
          · intro absent
            rw [held] at absent
            cases absent
    · simp only [deletes, if_false]
      split
      · rfl
      · next group named =>
        apply kept
        · intro held found
          rw [found, Option.getD_some, OrderedMap.get?_set_of_ne _ different]
        · intro absent
          rw [absent, Option.getD_none, OrderedMap.get?_set_of_ne _ different]
          rfl
  · simp only [listed, recordUpdate, indexWrite, member, if_false]
    simp only [indexEntityGroup, indexRelationship, indexGroup, removeGroup, markEdgeGone,
      addGroup]
    split_ifs <;> repeat' split
    all_goals rfl

theorem listed_recordUpdate_named {update : Update Term} {groupId : String}
    (named : namedGroup update = some groupId) :
    (surface.recordUpdate update).listed groupId update.subjectId =
      some (namedPermissions update) := by
  rw [namedGroup] at named
  split at named
  · next write =>
    simp only [listed, recordUpdate, indexWrite, write.1, String.reduceEq, if_false, if_true,
      indexGroupMember, if_neg write.2, named]
    simp only [addGroup, OrderedMap.get?_set_self, Option.bind_some, namedPermissions]
  · cases named

theorem listed_recordUpdate_unsettled {update : Update Term}
    (unsettled : settlesMember update = false) (groupId id : String) :
    (surface.recordUpdate update).listed groupId id = surface.listed groupId id := by
  rw [settlesMember, decide_eq_false_iff_not, not_and, not_or] at unsettled
  by_cases member : update.subjectType = "groupMember"
  · have write := unsettled member
    have unnamed : stringField (readFields update) "group_id" = none := by
      have nameless := write.2
      rw [namedGroup, if_pos ⟨member, write.1⟩] at nameless
      simpa using nameless
    simp only [listed, recordUpdate, indexWrite, member, String.reduceEq, if_false, if_true,
      indexGroupMember, if_neg write.1, unnamed]
  · simp only [listed, recordUpdate, indexWrite, member, if_false]
    simp only [indexEntityGroup, indexRelationship, indexGroup, removeGroup, markEdgeGone,
      addGroup]
    split_ifs <;> repeat' split
    all_goals rfl

/-- The indexes agree with the buffer they were built from. -/
structure Indexed (surface : WriteSurface Term) : Prop where
  members : ∀ id, surface.memberGroup.get? id = memberGroupOf surface.updates id
  filings : ∀ id groupId entityId, surface.membershipGroup.get? id = some groupId →
    surface.membershipEntity.get? id = some entityId →
      filingOf surface.updates id = some (groupId, entityId)
  rosters : ∀ id groupId permissions, grantOf surface.updates id groupId = some permissions →
    surface.listed groupId id = some permissions

theorem indexed_empty : Indexed (empty : WriteSurface Term) where
  members _ := rfl
  filings _ _ _ found := by cases found
  rosters _ _ _ found := by cases found

theorem writesTo_append (id : String) (updates : List (Update Term)) (update : Update Term) :
    writesTo id (updates ++ [update]) =
      writesTo id updates ++ if update.subjectId = id then [update] else [] := by
  rw [writesTo, List.filter_append]
  by_cases same : update.subjectId = id <;> simp [same, writesTo]

theorem Indexed.step {surface : WriteSurface Term} (indexed : surface.Indexed)
    (update : Update Term) : (surface.recordUpdate update).Indexed := by
  constructor
  case members =>
    intro id
    rw [memberGroup_recordUpdate, updates_recordUpdate, memberGroupOf, writesTo_append,
      List.filterMap_append]
    have before := indexed.members id
    rw [memberGroupOf] at before
    cases named : namedGroup update with
    | none =>
        rw [before]
        by_cases same : update.subjectId = id <;> simp [same, named]
    | some groupId =>
        simp only [OrderedMap.get?_set, before]
        by_cases same : update.subjectId = id
        · simp [same, named]
        · have different : id ≠ update.subjectId := fun equal => same equal.symm
          simp [same, different]
  case filings =>
    intro id groupId entityId
    have recorded := memberships_recordUpdate surface update
    rw [updates_recordUpdate, filingOf, writesTo_append, List.filterMap_append]
    have before := indexed.filings id groupId entityId
    rw [filingOf] at before
    cases filed : filedPair update with
    | none =>
        simp only [filed, Prod.mk.injEq] at recorded
        rw [recorded.1, recorded.2]
        intro group entity
        rw [← before group entity]
        by_cases same : update.subjectId = id <;> simp [same, filed]
    | some pair =>
        simp only [filed, Prod.mk.injEq] at recorded
        rw [recorded.1, recorded.2, OrderedMap.get?_set, OrderedMap.get?_set]
        by_cases same : update.subjectId = id
        · rw [if_pos same.symm, if_pos same.symm]
          intro group entity
          simp [same, filed, ← Option.some.inj group, ← Option.some.inj entity]
        · rw [if_neg (Ne.symm same), if_neg (Ne.symm same)]
          intro group entity
          simpa [same] using before group entity
  case rosters =>
    intro id groupId permissions
    rw [updates_recordUpdate, grantOf, writesTo_append, List.filter_append]
    have before := indexed.rosters id groupId permissions
    rw [grantOf] at before
    by_cases same : update.subjectId = id
    · cases settles : settlesMember update with
      | false =>
          rw [listed_recordUpdate_unsettled surface settles]
          simpa [same, settles] using before
      | true =>
          simp only [same, if_true, List.filter_cons, settles, List.filter_nil,
            List.getLast?_concat]
          intro granted
          split at granted
          · next named =>
            rw [← same, listed_recordUpdate_named surface named]
            exact granted
          · cases granted
    · rw [listed_recordUpdate_of_ne surface same]
      simpa [same] using before

theorem indexed_record (batch : List (Update Term)) {surface : WriteSurface Term}
    (indexed : surface.Indexed) : (surface.record batch).Indexed := by
  induction batch generalizing surface with
  | nil => exact indexed
  | cons update rest induction => exact induction (indexed.step update)

theorem perform_cases (verb : Verb) :
    (surface.perform verb).2 = surface ∨
      (surface.perform verb).2 = surface.record verb.updates := by
  cases verb with
  | create input => exact .inr rfl
  | relate planned => exact .inr rfl
  | update entity id payload updateId hlc =>
      rw [perform]
      split
      · exact .inl rfl
      · exact .inr rfl
  | delete entity id updateId =>
      rw [perform]
      split
      · exact .inl rfl
      · exact .inr rfl

theorem indexed_performAll (verbs : List Verb) : (performAll verbs).Indexed := by
  induction verbs using List.reverseRecOn with
  | nil => exact indexed_empty
  | append_singleton verbs verb induction =>
      rw [performAll, List.foldl_concat]
      rcases perform_cases (performAll verbs) verb with same | recorded
      · exact same ▸ induction
      · exact recorded ▸ indexed_record _ induction

end WriteSurface

/-! ## The Updates on the wire -/

theorem lookup_wireFields (fields : Fields Term) (key : String) :
    (wireFields fields).lookup key = (fields.lookup key).map wireField := by
  induction fields with
  | nil => rfl
  | cons entry rest induction =>
      rcases entry with ⟨head, value⟩
      rw [wireFields, lookup_cons_eq, lookup_cons_eq, induction]
      split
      · rfl
      · rfl

theorem unwrapValue_wireLeaf (leaf : FieldLeaf Term) :
    unwrapValue (wireLeaf leaf) = leaf.value := by
  rw [wireLeaf, unwrapValue]
  cases leaf.hlc <;> rfl

theorem fieldOf_wireUpdate {update : Update Term} {key : String} {leaf : FieldLeaf Term}
    (found : (readFields update).lookup key = some (.leaf leaf)) :
    fieldOf (wireUpdate update).data key = leaf.value := by
  cases carried : update.data with
  | none =>
      rw [readFields, carried] at found
      cases found
  | some fields =>
      rw [readFields, carried] at found
      have entry : entryOf (wireFields fields) key = wireLeaf leaf := by
        rw [entryOf, lookup_wireFields, show fields.lookup key = _ from found]
        rfl
      have read : Fields.get (wireUpdate update).data key = .ok leaf.value := by
        rw [← unwrapValue_wireLeaf, ← entry, wireUpdate, carried]
        rfl
      rw [fieldOf, read]

theorem fieldOf_of_stringField {update : Update Term} {key value : String}
    (reads : stringField (readFields update) key = some value) :
    fieldOf (wireUpdate update).data key = .string value := by
  rw [stringField] at reads
  split at reads
  · next leaf found =>
    rw [fieldOf_wireUpdate found]
    change asStringItem leaf.value = some value at reads
    cases held : leaf.value with
    | string text =>
        rw [held] at reads
        rw [Option.some.inj reads]
    | _ =>
        rw [held] at reads
        cases reads
  · cases reads

/-! ## The groups the guard checks -/

namespace Authorizer

open Access.Authorizer

theorem memberGroupId_of_named {method : UpdateMethod} {data named : Term} {groupId : String}
    {existing : Option MemberRow} (kept : method ≠ .delete)
    (wire : fieldOf data "group_id" = .string groupId)
    (read : memberGroupId method (dataOrEmpty data) existing = .ok named) :
    named = .string groupId := by
  cases method with
  | delete => exact absurd rfl kept
  | put =>
      rw [memberGroupId, Fields.get_eq_ok, fieldOf_dataOrEmpty, wire] at read
      · exact read.2.symm
      · rintro ⟨⟩
  | patch =>
      rw [memberGroupId] at read
      rcases bind_eq_ok.mp read with ⟨value, readWire, read⟩
      rw [Fields.get_eq_ok, fieldOf_dataOrEmpty, wire] at readWire
      cases read
      rw [← readWire.2]
      rfl

variable {sim : RequestSim}

theorem checked_applyGroupMember {authz : Authz} {next : RequestSim} {update : ValidatedUpdate}
    (applied : applyGroupMember authz sim update = .ok next) :
    (∀ groupId, sim.membersByGroup.get? groupId ≠ none →
        next.membersByGroup.get? groupId ≠ none) ∧
      ∀ groupId, update.method ≠ .delete → fieldOf update.data "group_id" = .string groupId →
        next.membersByGroup.get? (.string groupId) ≠ none := by
  have held_set : ∀ (lists : OrderedMap Term (OrderedMap String (List Term))) (group other : Term)
      (members : OrderedMap String (List Term)), lists.get? other ≠ none →
        (lists.set group members).get? other ≠ none :=
    fun lists group other members held unlisted => held (kept_of_set unlisted)
  cases method : update.method with
  | delete =>
      simp only [applyGroupMember, method] at applied
      refine ⟨?_, fun _ kept => absurd rfl kept⟩
      intro groupId held
      split at applied
      · cases applied
        exact held
      · cases applied
        exact held_set _ _ _ _ held
  | _ =>
      simp only [applyGroupMember, method] at applied
      rcases bind_eq_ok.mp applied with ⟨named, readGroup, applied⟩
      split at applied
      · next isNull =>
        cases applied
        refine ⟨fun _ held => held, ?_⟩
        intro groupId kept wire
        have same := memberGroupId_of_named kept wire readGroup
        rw [isNull] at same
        cases same
      · rcases bind_eq_ok.mp applied with ⟨permissions, _, applied⟩
        cases applied
        constructor
        · intro groupId held
          apply held_set
          cases resolveGroupMember update.subjectId authz sim with
          | none => exact held
          | some previous =>
              simp only [removeMovedMember]
              split
              · exact held_set _ _ _ _ held
              · exact held
        · intro groupId kept wire
          rw [memberGroupId_of_named kept wire readGroup]
          simp only [addGroupMember, OrderedMap.get?_set_self]
          rintro ⟨⟩

theorem checked_foldlM {authz : Authz} {next : RequestSim} {updates : List ValidatedUpdate}
    (applied : updates.foldlM (applyGroupMember authz) sim = .ok next) :
    (∀ groupId, sim.membersByGroup.get? groupId ≠ none →
        next.membersByGroup.get? groupId ≠ none) ∧
      ∀ update ∈ updates, ∀ groupId, update.method ≠ .delete →
        fieldOf update.data "group_id" = .string groupId →
          next.membersByGroup.get? (.string groupId) ≠ none := by
  induction updates generalizing sim with
  | nil =>
      cases applied
      exact ⟨fun _ held => held, nofun⟩
  | cons update rest induction =>
      rw [List.foldlM_cons] at applied
      rcases bind_eq_ok.mp applied with ⟨middle, step, applied⟩
      have here := checked_applyGroupMember step
      have later := induction applied
      refine ⟨fun groupId held => later.1 groupId (here.1 groupId held), ?_⟩
      intro other member groupId kept wire
      rcases List.mem_cons.mp member with rfl | member
      · exact later.1 _ (here.2 groupId kept wire)
      · exact later.2 other member groupId kept wire

theorem capable_of_named {caches : SystemCaches} {actorId : String} {action : ValidatedAction}
    (authorized : authorizeAction caches actorId newSim action = .ok sim) {update : ValidatedUpdate}
    (member : update ∈ action.updates) (type : update.subjectType = "groupMember")
    (kept : update.method ≠ .delete) {groupId : String}
    (named : fieldOf update.data "group_id" = .string groupId) :
    ∃ id permissions, countedRow caches action.updates id = some ⟨.string groupId, permissions⟩ ∧
      permissions ≠ [] := by
  have accepts : acceptAll caches actorId [action] = .ok sim := by
    rw [acceptAll, List.foldlM_cons, authorized]
    rfl
  have checked : sim.membersByGroup.get? (.string groupId) ≠ none := by
    rcases (accepts_of_authorizeAction authorized).counted with
      ⟨_, after, _, _, applied, _, lists⟩
    rw [lists]
    apply (checked_foldlM applied).2 update _ groupId kept named
    exact List.mem_filter.mpr ⟨member, decide_eq_true type⟩
  have whole : updatesOf [action] = action.updates := by
    rw [updatesOf, List.flatMap_singleton]
  rw [← whole]
  exact capable_of_listed accepts checked

end Authorizer

variable {updates : List (Update Term)} {id groupId : String} {surface : WriteSurface Term}
  {refusal : Refusal} {caches : SystemCaches} {actorId updateId : String}
  {payload : List (String × PatchValue)}

/-! ## What a refusal says of the surface -/

theorem exists_of_memberGroupOf (placed : memberGroupOf updates id = some groupId) :
    ∃ update ∈ updates, update.subjectType = "groupMember" ∧ update.method ≠ .delete ∧
      fieldOf (wireUpdate update).data "group_id" = .string groupId := by
  obtain ⟨update, written, named⟩ := List.mem_filterMap.mp (List.mem_of_getLast? placed)
  rw [namedGroup] at named
  split at named
  · next write =>
    exact ⟨update, List.mem_of_mem_filter written, write.1, write.2,
      fieldOf_of_stringField named⟩
  · cases named

theorem exists_of_filingOf {pair : String × String} (filed : filingOf updates id = some pair) :
    ∃ update ∈ updates, update.subjectId = id ∧ update.subjectType = "entityGroup" ∧
      update.method ≠ .delete ∧
      fieldOf (wireUpdate update).data "entity_id" = .string pair.2 := by
  obtain ⟨update, written, named⟩ := List.mem_filterMap.mp (List.mem_of_getLast? filed)
  obtain ⟨member, same⟩ := List.mem_filter.mp written
  rw [filedPair] at named
  split at named
  · next write =>
    split at named
    · next groupId entityId group entity =>
      rw [← Option.some.inj named]
      exact ⟨update, member, of_decide_eq_true same, write.1, write.2,
        fieldOf_of_stringField entity⟩
    · cases named
  · cases named

theorem unlisted_of_violation {members : OrderedMap String (List String)}
    {delta : GroupMemberDelta} {details : String}
    (violation : lastGroupMemberViolation members delta = some details) {id : String}
    {permissions : List String}
    (left : (delta.upserts.foldl (fun rows upsert => rows.set upsert.1 upsert.2)
      (delta.removedIds.foldl OrderedMap.erase members)).get? id = some permissions) :
    permissions = [] := by
  rw [lastGroupMemberViolation] at violation
  split at violation
  · cases violation
  · simp only at violation
    split at violation
    · cases violation
    · next none =>
      by_contra capable
      apply none
      rw [List.any_eq_true]
      exact ⟨(id, permissions), (OrderedMap.get?_eq_some_iff _ _ _).mp left,
        decide_eq_true capable⟩

theorem listed_of_refused {memberId : String} {delta : GroupMemberDelta}
    (refuses : assertLastGroupMember surface memberId groupId delta = some refusal) :
    ∃ roster, (∀ id, surface.listed groupId id = roster.get? id) ∧
      ∃ details, lastGroupMemberViolation roster delta = some details := by
  rw [assertLastGroupMember] at refuses
  split at refuses
  · cases refuses
  · next roster found =>
    obtain ⟨details, violation, _⟩ := Option.map_eq_some_iff.mp refuses
    refine ⟨roster, ?_, details, violation⟩
    intro id
    rw [WriteSurface.groupMembersOf] at found
    split at found
    · rw [← Option.some.inj found, WriteSurface.listed]
      cases surface.membersByGroup.get? groupId with
      | none => rfl
      | some members => rfl
    · cases found

/-! ## Refused verbs -/

open Authorizer in
theorem rejects_of_unlisted (indexed : surface.Indexed) {write : Update Term}
    (type : write.subjectType = "groupMember")
    (placed : memberGroupOf surface.updates write.subjectId = some groupId)
    (seen : MembersSeen caches surface.updates write.subjectId groupId)
    (unlisted : ∀ id permissions, id ≠ write.subjectId → surface.listed groupId id =
      some permissions → permissions = [])
    (empties : ∀ row permissions, countAfter (wireUpdate write) row =
      some ⟨.string groupId, permissions⟩ → permissions = []) :
    Rejects caches actorId (surface.updates ++ [write]) := by
  intro id hlc sim authorized
  obtain ⟨update, member, isMember, kept, named⟩ := exists_of_memberGroupOf placed
  have onWire : wireUpdate update ∈
      (commitAction id actorId hlc (surface.updates ++ [write])).updates :=
    List.mem_map.mpr ⟨update, List.mem_append_left _ member, rfl⟩
  obtain ⟨other, permissions, counted, capable⟩ :=
    capable_of_named authorized onWire isMember kept named
  have split : (commitAction id actorId hlc (surface.updates ++ [write])).updates =
      surface.updates.map wireUpdate ++ [wireUpdate write] := List.map_append
  rw [split, countedRow_concat] at counted
  split at counted
  · exact capable (empties _ _ counted)
  · next elsewhere =>
    have different : other ≠ write.subjectId := by
      intro same
      exact elsewhere (decide_eq_true ⟨type, same.symm⟩)
    obtain ⟨granted, grants, nonempty⟩ := seen other permissions different counted capable
    exact nonempty (unlisted other granted different (indexed.rosters other groupId granted grants))

namespace WriteSurface

theorem perform_create (surface : WriteSurface Term) (input : CreateInput) :
    (surface.perform (.create input)).1 = none := by
  obtain ⟨group, rest, groups⟩ := List.exists_cons_of_ne_nil input.filed
  obtain ⟨updateId, ids, minted⟩ : ∃ updateId ids, input.updateIds = updateId :: ids := by
    apply List.exists_cons_of_length_pos
    rw [input.minted, groups]
    exact Nat.succ_pos _
  have filing : buildEntityGroupUpdate input.id group updateId ∈
      (createEntity input).filter fun update => update.subjectType = "entityGroup" := by
    rw [List.mem_filter]
    refine ⟨?_, rfl⟩
    rw [createEntity, groups, minted]
    simp [buildEntityGroupUpdates]
  have inScope : group ∈ (surface.record (createEntity input)).membershipScope
      ((createEntity input).filter fun update => update.subjectType = "entityGroup") := by
    rw [membershipScope, List.mem_eraseDups]
    exact List.mem_flatMap.mpr ⟨_, filing, List.mem_singleton_self group⟩
  rw [perform, assertMembershipScope, if_neg (List.ne_nil_of_mem inScope), ite_self]

end WriteSurface

theorem rejects_memberDelete (indexed : surface.Indexed)
    (refuses : surface.guardMemberDelete id = some refusal)
    (seen : ∀ groupId, memberGroupOf surface.updates id = some groupId →
      MembersSeen caches surface.updates id groupId) :
    Rejects caches actorId (surface.updates ++ deleteEntity "groupMember" id updateId) := by
  rw [WriteSurface.guardMemberDelete] at refuses
  split at refuses
  · cases refuses
  · next groupId held =>
    have placed : memberGroupOf surface.updates id = some groupId := by
      rw [← indexed.members, held]
    obtain ⟨roster, lists, details, violation⟩ := listed_of_refused refuses
    apply rejects_of_unlisted indexed rfl placed (seen groupId placed)
    · intro other permissions different found
      rw [lists] at found
      apply @unlisted_of_violation _ _ _ violation other
      change (roster.erase id).get? other = _
      have elsewhere : other ≠ id := different
      rw [OrderedMap.get?_erase, if_neg elsewhere, found]
    · intro row permissions counted
      cases counted

theorem lookup_wrapFields (payload : List (String × PatchValue)) (updateId : String)
    (hlc : HLCTimestamp) (key : String) :
    (wrapFields payload updateId hlc).lookup key =
      (payload.lookup key).map (wrapValue updateId hlc) := by
  induction payload with
  | nil => rfl
  | cons entry rest induction =>
      rcases entry with ⟨head, value⟩
      rw [wrapFields] at induction ⊢
      rw [List.map_cons, lookup_cons_eq, lookup_cons_eq, induction]
      split
      · rfl
      · rfl

theorem granted_of_emptying {items : List Term} {hlc : HLCTimestamp}
    (given : payload.lookup "permissions" = some (.value (.list items)))
    (ungrouped : payload.lookup "group_id" = none) (named : items.mapM asStringItem = some [])
    {row : Option Authorizer.MemberRow} {permissions : List Term}
    (counted : Authorizer.countAfter (wireUpdate (patchUpdate "groupMember" id payload updateId hlc)) row = some ⟨.string groupId, permissions⟩)
    : permissions = [] := by
  have noItems : items = [] := by
    cases items with
    | nil => rfl
    | cons head rest =>
        cases first : asStringItem head <;> cases others : rest.mapM asStringItem <;>
          simp [first, others] at named
  have wirePermissions : fieldOf
      (wireUpdate (patchUpdate "groupMember" id payload updateId hlc)).data "permissions" =
        .list [] := by
    have found : (wrapFields payload updateId hlc).lookup "permissions" =
        some (.leaf { value := .list [], updateId, hlc := some hlc }) := by
      rw [lookup_wrapFields, given, noItems]
      rfl
    exact @fieldOf_wireUpdate (patchUpdate "groupMember" id payload updateId hlc) _ _ found
  have wireGroup : fieldOf
      (wireUpdate (patchUpdate "groupMember" id payload updateId hlc)).data "group_id" =
        .null := by
    have absent := lookup_wrapFields payload updateId hlc "group_id"
    rw [ungrouped] at absent
    have entry : entryOf (wireFields (wrapFields payload updateId hlc)) "group_id" = .null := by
      rw [entryOf, lookup_wireFields, absent]
      rfl
    have read : Fields.get
        (wireUpdate (patchUpdate "groupMember" id payload updateId hlc)).data "group_id" =
          .ok .null := by
      change Except.ok (unwrapValue (entryOf _ "group_id")) = _
      rw [entry]
      rfl
    rw [fieldOf, read]
  rw [Authorizer.countAfter, wirePermissions, wireGroup] at counted
  have method : (wireUpdate (patchUpdate "groupMember" id payload updateId hlc)).method =
      .patch := rfl
  simp only [method, patchedRow, if_true, reduceCtorEq, if_false] at counted
  split at counted
  · next ungroupedRow =>
    rw [counted] at ungroupedRow
    cases ungroupedRow
  · have granted := congrArg (Option.map Authorizer.MemberRow.permissions) counted
    exact (Option.some.inj granted).symm

theorem rejects_memberUpdate {hlc : HLCTimestamp} (indexed : surface.Indexed)
    (refuses : surface.guardMemberUpdate id payload = some refusal)
    (seen : ∀ groupId, memberGroupOf surface.updates id = some groupId →
      MembersSeen caches surface.updates id groupId) :
    Rejects caches actorId
      (surface.updates ++ patchEntity "groupMember" id payload updateId hlc) := by
  rw [WriteSurface.guardMemberUpdate] at refuses
  split at refuses
  · next items groupId given ungrouped held =>
    split at refuses
    · cases refuses
    · next permissions named =>
      have placed : memberGroupOf surface.updates id = some groupId := by
        rw [← indexed.members, held]
      obtain ⟨roster, lists, details, violation⟩ := listed_of_refused refuses
      have left : ∀ other, (roster.set id permissions).get? other =
          if other = id then some permissions else surface.listed groupId other := by
        intro other
        rw [OrderedMap.get?_set, lists]
      have emptied : permissions = [] := by
        apply @unlisted_of_violation _ _ _ violation id
        exact (left id).trans (if_pos rfl)
      apply rejects_of_unlisted indexed rfl placed (seen groupId placed)
      · intro other granted different found
        apply @unlisted_of_violation _ _ _ violation other
        exact (left other).trans ((if_neg different).trans found)
      · intro row granted counted
        subst emptied
        exact granted_of_emptying given ungrouped named counted
  · cases refuses

theorem rejects_membershipDelete (indexed : surface.Indexed)
    (refuses : surface.guardMembershipDelete id = some refusal)
    (seen : FiledAnew caches surface.updates id) :
    Rejects caches actorId (surface.updates ++ deleteEntity "entityGroup" id updateId) := by
  rw [WriteSurface.guardMembershipDelete] at refuses
  split at refuses
  · next groupId entityId group entity =>
    have filed := indexed.filings id groupId entityId group entity
    obtain ⟨update, member, same, type, kept, named⟩ := exists_of_filingOf filed
    intro actionId hlc sim authorized
    have checked := (Authorizer.accepts_of_authorizeAction authorized).checked
    have deletion := Authorizer.membershipAccepted_of_checkUpdate rfl
      (checked (wireUpdate (deleteUpdate "entityGroup" id updateId))
        (List.mem_map.mpr ⟨_, List.mem_append_right _ (List.mem_singleton_self _), rfl⟩))
    have filing := Authorizer.membershipAccepted_of_checkUpdate type
      (checked (wireUpdate update) (List.mem_map.mpr ⟨_, List.mem_append_left _ member, rfl⟩))
    obtain ⟨row, stored⟩ := deletion.delete rfl
    have put : (wireUpdate update).method = .put := by
      cases method : update.method with
      | put => exact method
      | patch => exact absurd method filing.noPatch
      | delete => exact absurd method kept
    have owner := (filing.put put).2.2 row (by
      change caches.entityGroups.getEntityGroup update.subjectId = some row
      rw [same]
      exact stored)
    exact seen _ row filed stored (owner.trans named)
  · cases refuses

/-- A verb that the pre-flight refuses completes no Action the Authorizer accepts, where
the invocation has seen what the server counts. -/
theorem rejects_of_refused {caches : SystemCaches} {actorId : String} {verbs : List Verb}
    {verb : Verb} {refusal : Refusal}
    (seen : Seen caches (WriteSurface.performAll verbs).updates verb)
    (refuses : ((WriteSurface.performAll verbs).perform verb).1 = some refusal) :
    Rejects caches actorId ((WriteSurface.performAll verbs).updates ++ verb.updates) := by
  have indexed := WriteSurface.indexed_performAll verbs
  generalize WriteSurface.performAll verbs = surface at seen refuses indexed ⊢
  cases verb with
  | create input =>
      rw [WriteSurface.perform_create] at refuses
      cases refuses
  | relate planned => cases refuses
  | update entity id payload updateId hlc =>
      rw [WriteSurface.perform] at refuses
      split at refuses
      · next refused guarded =>
        split at guarded
        · next member =>
          subst member
          exact rejects_memberUpdate indexed guarded (seen rfl)
        · cases guarded
      · cases refuses
  | delete entity id updateId =>
      rw [WriteSurface.perform] at refuses
      split at refuses
      · next refused guarded =>
        split at guarded
        · next membership =>
          subst membership
          exact rejects_membershipDelete indexed guarded (seen.2 rfl)
        · split at guarded
          · next member =>
            subst member
            exact rejects_memberDelete indexed guarded (seen.1 rfl)
          · cases guarded
      · cases refuses

/-! An invocation that renames a group, names it again on a member row and then deletes
the row. -/

def renameGroup : Verb := .update "group" "g" [("name", .value (.string "team"))] "u_a" 1

def nameGroup : Verb :=
  .update "groupMember" "m" [("group_id", .value (.string "g"))] "u_b" 1

def dropMember : Verb := .delete "groupMember" "m" "u_c"

/-- On a server that knows no other member of the group, the delete is refused there
too. -/
theorem rejects_dropMember :
    Rejects .empty "a"
      ((WriteSurface.performAll [renameGroup, nameGroup]).updates ++ dropMember.updates) := by
  have seen : Seen .empty (WriteSurface.performAll [renameGroup, nameGroup]).updates
      dropMember := by
    refine ⟨?_, nofun⟩
    intro _ groupId _ other permissions different counted
    have elsewhere : ¬ "m" = other := fun same => different same.symm
    have unwritten : Authorizer.countedRow .empty
        ((WriteSurface.performAll [renameGroup, nameGroup]).updates.map wireUpdate) other =
          none := by
      have updates : (WriteSurface.performAll [renameGroup, nameGroup]).updates =
          renameGroup.updates ++ nameGroup.updates := rfl
      rw [updates]
      simp [Authorizer.countedRow, renameGroup, nameGroup, Verb.updates, patchEntity,
        patchUpdate, wireUpdate, Authorizer.writesMember, elsewhere]
      rfl
    rw [unwritten] at counted
    cases counted
  exact @rejects_of_refused .empty "a" [renameGroup, nameGroup] dropMember
    ⟨"m", "groupMember", "last_group_member", lastGroupMemberDetails⟩ seen rfl

def staffedGroup : SystemCaches :=
  applyCacheMutations .empty
    [.entityType "k" "groupMember",
      .groupMemberPut ⟨"k", .string "g", .string "a",
        .list [.string "groupMember.*", .string "group.*"]⟩,
      .entityType "m" "groupMember",
      .groupMemberPut ⟨"m", .string "g", .string "b", .list [.string "task.*"]⟩]

/-- A renamed group passes for a new one: the delete is refused as emptying it, while the
server, which knows its other member, accepts the Action. -/
theorem renamed_group_refused :
    ¬ ∀ (caches : SystemCaches) (actorId : String) (verbs : List Verb) (verb : Verb)
      (refusal : Refusal),
      ((WriteSurface.performAll verbs).perform verb).1 = some refusal →
        Rejects caches actorId ((WriteSurface.performAll verbs).updates ++ verb.updates) := by
  intro justified
  have rejects := justified staffedGroup "a" [renameGroup, nameGroup] dropMember
    ⟨"m", "groupMember", "last_group_member", lastGroupMemberDetails⟩ (by decide)
  have accepted : (Authorizer.authorizeAction staffedGroup "a" Authorizer.newSim
      (commitAction "act" "a" 1 ((WriteSurface.performAll [renameGroup, nameGroup]).updates ++
        dropMember.updates))).isOk = true := by decide
  cases verdict : Authorizer.authorizeAction staffedGroup "a" Authorizer.newSim
      (commitAction "act" "a" 1 ((WriteSurface.performAll [renameGroup, nameGroup]).updates ++
        dropMember.updates)) with
  | ok sim => exact rejects "act" 1 sim verdict
  | error failure =>
      rw [verdict] at accepted
      cases accepted

end Ebb.Functions
