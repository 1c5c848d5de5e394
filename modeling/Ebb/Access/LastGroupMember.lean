import Ebb.Access.LastMembership

namespace Ebb.Access

namespace Authorizer

open PermissionHelper

/-! Which groups still have a member with permissions once the accepted Actions of a
request are committed: the guard counts wire Updates, and the planner drops or
defaults some of them. -/

/-! ## The rows the guard counts -/

/-- The row of its subject as the guard counts it after a `groupMember` Update. -/
def countAfter (update : ValidatedUpdate) (row : Option MemberRow) : Option MemberRow :=
  match update.method with
  | .delete => none
  | method =>
      let existing := patchedRow method row
      let wire := fieldOf update.data "group_id"
      let groupId := if method = .patch then wire.or ((existing.map (·.groupId)).getD .null)
        else wire
      let permissions :=
        if fieldOf update.data "permissions" = .null then
          (existing.map (·.permissions)).getD []
        else (fieldOf update.data "permissions").wrap
      if groupId = .null then row else some ⟨groupId, permissions⟩

def writesMember (id : String) (update : ValidatedUpdate) : Bool :=
  update.subjectType = "groupMember" ∧ update.subjectId = id

def countedRow (caches : SystemCaches) (updates : List ValidatedUpdate) (id : String) :
    Option MemberRow :=
  updates.foldl (fun row update => if writesMember id update then countAfter update row else row)
    ((caches.groups.getGroupMember id).map memberRowOf)

theorem countedRow_concat (caches : SystemCaches) (updates : List ValidatedUpdate)
    (update : ValidatedUpdate) (id : String) :
    countedRow caches (updates ++ [update]) id =
      if writesMember id update then countAfter update (countedRow caches updates id)
      else countedRow caches updates id :=
  List.foldl_concat ..

def permissionsIn (groupId : Term) : Option MemberRow → Option (List Term)
  | some row => if row.groupId = groupId then some row.permissions else none
  | none => none

variable {groupId : Term} {rows : String → Option MemberRow} {row : Option GroupMember}

theorem permissionsIn_eq_some {row : Option MemberRow} {permissions : List Term} :
    permissionsIn groupId row = some permissions ↔ row = some ⟨groupId, permissions⟩ := by
  cases row with
  | none => simp [permissionsIn]
  | some row =>
      rcases row with ⟨group, granted⟩
      simp only [permissionsIn, Option.some.injEq, MemberRow.mk.injEq]
      split
      · next same => simp [same]
      · next different => simp [different]

/-! ## The members of a group, as the guard lists them -/

theorem get?_loadGroup (groupId : Term) (authz : Authz) (id : String) :
    (loadGroup groupId authz).get? id = permissionsIn groupId (cachedGroupMember id authz) := by
  have general : ∀ step : OrderedMap String (List Term) → String → OrderedMap String (List Term),
      (∀ members memberId, step members memberId = ((cachedGroupMember memberId authz).map
        fun row => members.set memberId row.permissions).getD members) →
      ∀ (ids : List String) members, (ids.foldl step members).get? id =
        if id ∈ ids then ((cachedGroupMember id authz).map (·.permissions)).or (members.get? id)
        else members.get? id := by
    intro step steps ids
    induction ids with
    | nil => exact fun _ => rfl
    | cons head rest induction =>
        intro members
        rw [List.foldl_cons, induction, steps]
        by_cases same : id = head
        · subst same
          cases found : cachedGroupMember id authz with
          | none => simp
          | some row => simp
        · cases found : cachedGroupMember head authz with
          | none => simp [same]
          | some row => simp [same, OrderedMap.get?_set_of_ne members same]
  apply (general _ (fun members memberId => by cases cachedGroupMember memberId authz <;> rfl)
    (authz.caches.groups.groupMemberIds groupId) .empty).trans
  rw [OrderedMap.get?_empty, GroupCache.groupMemberIds]
  simp only [Bag.mem_lookup, authz.caches.groups.byGroup, cachedGroupMember,
    GroupCache.getGroupMember]
  cases stored : authz.caches.groups.groupMembersById.get? id with
  | none => simp [permissionsIn]
  | some row => simp [permissionsIn, memberRowOf]

/-- The member lists, loaded or changed, show the counted rows. -/
def Lists (authz : Authz) (membersByGroup : OrderedMap Term (OrderedMap String (List Term)))
    (rows : String → Option MemberRow) : Prop :=
  ∀ groupId id, (ensureGroup membersByGroup groupId authz).get? id =
    permissionsIn groupId (rows id)

theorem lists_congr {authz other : Authz} (same : authz.caches = other.caches)
    {membersByGroup : OrderedMap Term (OrderedMap String (List Term))}
    (lists : Lists authz membersByGroup rows) :
    Lists other membersByGroup rows := by
  intro groupId id
  rw [← lists groupId id]
  simp only [ensureGroup, loadGroup, cachedGroupMember, same]

theorem ensureGroup_set (membersByGroup : OrderedMap Term (OrderedMap String (List Term)))
    (groupId other : Term) (members : OrderedMap String (List Term)) (authz : Authz) :
    ensureGroup (membersByGroup.set groupId members) other authz =
      if other = groupId then members else ensureGroup membersByGroup other authz := by
  rw [ensureGroup, OrderedMap.get?_set]
  split
  · rfl
  · rfl

theorem lists_remove {authz : Authz} {sim : RequestSim}
    (lists : Lists authz sim.membersByGroup rows) {id : String} {row : MemberRow}
    (counted : rows id = some row) :
    Lists authz (removeGroupMember sim id row.groupId authz).membersByGroup
      (Function.update rows id none) := by
  intro groupId other
  rw [removeGroupMember, ensureGroup_set, Function.update_apply]
  by_cases inGroup : groupId = row.groupId
  · rw [if_pos inGroup, OrderedMap.get?_erase, lists, inGroup]
    split
    · rfl
    · rfl
  · rw [if_neg inGroup, lists]
    split
    · next same =>
        have elsewhere : ¬ row.groupId = groupId := fun equal => inGroup equal.symm
        simp only [same, counted, permissionsIn, elsewhere, if_false]
    · rfl

theorem lists_add {authz : Authz} {sim : RequestSim} {rows : String → Option MemberRow}
    (lists : Lists authz sim.membersByGroup rows) {id : String} {row : MemberRow}
    (stays : ∀ previous, rows id = some previous → previous.groupId = row.groupId) :
    Lists authz (addGroupMember sim id row authz).membersByGroup
      (Function.update rows id (some row)) := by
  intro groupId other
  rw [addGroupMember, ensureGroup_set, Function.update_apply]
  by_cases inGroup : groupId = row.groupId
  · rw [if_pos inGroup, OrderedMap.get?_set, lists, inGroup]
    split
    · simp [permissionsIn]
    · rfl
  · rw [if_neg inGroup, lists]
    split
    · next same =>
        have elsewhere : ¬ row.groupId = groupId := fun equal => inGroup equal.symm
        have before : permissionsIn groupId (rows id) = none := by
          cases counted : rows id with
          | none => rfl
          | some previous =>
              have previousElsewhere : ¬ previous.groupId = groupId :=
                fun equal => inGroup (equal.symm.trans (stays previous counted))
              simp only [permissionsIn, previousElsewhere, if_false]
        rw [same, before]
        simp only [permissionsIn, elsewhere, if_false]
    · rfl

/-! ## What the guard knows of the accepted Updates -/

/-- The request's member overlay and lists, once `updates` are accepted. -/
structure Counts (caches : SystemCaches) (updates : List ValidatedUpdate)
    (memberOverlay : OrderedMap String (Option MemberRow))
    (membersByGroup : OrderedMap Term (OrderedMap String (List Term))) : Prop where
  rows : ∀ id, (memberOverlay.get? id).getD ((caches.groups.getGroupMember id).map memberRowOf) =
    countedRow caches updates id
  lists : ∀ authz : Authz, authz.caches = caches →
    Lists authz membersByGroup (countedRow caches updates)
  untouched : ∀ groupId, membersByGroup.get? groupId = none → ∀ before, before <+: updates →
    ∀ id, permissionsIn groupId (countedRow caches before id) =
      permissionsIn groupId (countedRow caches [] id)

section Counting

variable {caches : SystemCaches} {updates : List ValidatedUpdate} {authz : Authz}
  {sim next : RequestSim} {update : ValidatedUpdate}

theorem counts_nil : Counts caches [] .empty .empty where
  rows _ := rfl
  lists authz same groupId id := by
    subst same
    exact get?_loadGroup groupId authz id
  untouched groupId _ before isPrefix id := by
    rw [List.prefix_nil.mp isPrefix]

theorem Counts.concat (counts : Counts caches updates sim.memberOverlay sim.membersByGroup)
    (rows : ∀ id, (next.memberOverlay.get? id).getD
        ((caches.groups.getGroupMember id).map memberRowOf) =
      countedRow caches (updates ++ [update]) id)
    (lists : ∀ authz : Authz, authz.caches = caches →
      Lists authz next.membersByGroup (countedRow caches (updates ++ [update])))
    (kept : ∀ groupId, next.membersByGroup.get? groupId = none →
      sim.membersByGroup.get? groupId = none) :
    Counts caches (updates ++ [update]) next.memberOverlay next.membersByGroup where
  rows := rows
  lists := lists
  untouched := by
    intro groupId unlisted before isPrefix id
    rcases List.prefix_concat_iff.mp isPrefix with whole | earlier
    · let tables : Authz := buildAuthz caches "" newSim []
      have listed := lists tables rfl groupId id
      have loaded := get?_loadGroup groupId tables id
      rw [ensureGroup, unlisted] at listed
      rw [whole]
      exact listed.symm.trans loaded
    · exact counts.untouched groupId (kept groupId unlisted) before earlier id

theorem counts_unwritten (counts : Counts caches updates sim.memberOverlay sim.membersByGroup)
    (other : update.subjectType ≠ "groupMember") :
    Counts caches (updates ++ [update]) sim.memberOverlay sim.membersByGroup := by
  have same : countedRow caches (updates ++ [update]) = countedRow caches updates := by
    funext id
    rw [countedRow_concat, if_neg]
    rw [writesMember, decide_eq_true_eq]
    exact fun names => other names.1
  apply counts.concat
  · rw [same]
    exact counts.rows
  · rw [same]
    exact counts.lists
  · exact fun _ unlisted => unlisted

theorem countedRow_written (type : update.subjectType = "groupMember")
    (row : Option MemberRow)
    (left : countAfter update (countedRow caches updates update.subjectId) = row) :
    countedRow caches (updates ++ [update]) =
      Function.update (countedRow caches updates) update.subjectId row := by
  funext id
  rw [countedRow_concat, Function.update_apply, writesMember]
  by_cases same : id = update.subjectId
  · simp [same, type, left]
  · have different : ¬ update.subjectId = id := fun equal => same equal.symm
    simp [same, different]

theorem rows_written (counts : Counts caches updates sim.memberOverlay sim.membersByGroup)
    (type : update.subjectType = "groupMember") (row : Option MemberRow)
    (left : countAfter update (countedRow caches updates update.subjectId) = row) (id : String) :
    ((sim.memberOverlay.set update.subjectId row).get? id).getD
        ((caches.groups.getGroupMember id).map memberRowOf) =
      countedRow caches (updates ++ [update]) id := by
  rw [countedRow_written type row left, OrderedMap.get?_set, Function.update_apply]
  split
  · rfl
  · exact counts.rows id

variable {groupId : Term} {actions : List ValidatedAction}

theorem countAfter_of_memberGroupId {existing : Option MemberRow}
    (notDelete : update.method ≠ .delete)
    (read : memberGroupId update.method (dataOrEmpty update.data) existing = .ok groupId) :
    (groupId = .null → countAfter update existing = existing) ∧
      (groupId ≠ .null → ∀ permissions, resultingPermissions update.method
        (dataOrEmpty update.data) existing = .ok permissions →
          countAfter update existing = some ⟨groupId, permissions⟩) := by
  cases method : update.method with
  | delete => exact absurd method notDelete
  | put =>
      rw [method, memberGroupId, Fields.get_eq_ok, fieldOf_dataOrEmpty] at read
      · simp only [countAfter, method, reduceCtorEq, if_false, read.2]
        constructor
        · exact fun isNull => if_pos isNull
        · intro present permissions granted
          rw [resultingPermissions] at granted
          · rcases bind_eq_ok.mp granted with ⟨wire, readWire, granted⟩
            rw [Fields.get_eq_ok, fieldOf_dataOrEmpty] at readWire
            cases granted
            rw [if_neg present, readWire.2]
            split
            · next isNull => rw [isNull]; rfl
            · rfl
          · exact nofun
      · exact nofun
  | patch =>
      rw [method, memberGroupId] at read
      rcases bind_eq_ok.mp read with ⟨wire, readWire, read⟩
      rw [Fields.get_eq_ok, fieldOf_dataOrEmpty] at readWire
      cases read
      simp only [countAfter, method, if_true, readWire.2, patchedRow]
      constructor
      · exact fun isNull => if_pos isNull
      · intro present permissions granted
        rw [resultingPermissions] at granted
        rcases bind_eq_ok.mp granted with ⟨wirePermissions, readPermissions, granted⟩
        rw [Fields.get_eq_ok, fieldOf_dataOrEmpty] at readPermissions
        rw [if_neg present, readPermissions.2]
        split at granted
        · cases granted
          rfl
        · next notNull =>
            cases granted
            rw [if_neg notNull]

theorem kept_of_set {membersByGroup : OrderedMap Term (OrderedMap String (List Term))}
    {other : Term} {members : OrderedMap String (List Term)}
    (unlisted : (membersByGroup.set groupId members).get? other = none) :
    membersByGroup.get? other = none := by
  rw [OrderedMap.get?_set] at unlisted
  split at unlisted
  · cases unlisted
  · exact unlisted

theorem counts_applyGroupMember (sameCaches : authz.caches = caches)
    (counts : Counts caches updates sim.memberOverlay sim.membersByGroup)
    (type : update.subjectType = "groupMember")
    (applied : applyGroupMember authz sim update = .ok next) :
    Counts caches (updates ++ [update]) next.memberOverlay next.membersByGroup := by
  have resolved : resolveGroupMember update.subjectId authz sim =
      countedRow caches updates update.subjectId := by
    rw [← counts.rows update.subjectId, resolveGroupMember]
    cases sim.memberOverlay.get? update.subjectId with
    | none => exact sameCaches ▸ rfl
    | some row => rfl
  have unchanged : countAfter update (countedRow caches updates update.subjectId) =
      countedRow caches updates update.subjectId → next = sim →
        Counts caches (updates ++ [update]) next.memberOverlay next.membersByGroup := by
    intro same equal
    subst equal
    have rows : countedRow caches (updates ++ [update]) = countedRow caches updates := by
      rw [countedRow_written type _ same, Function.update_eq_self]
    apply counts.concat
    · rw [rows]
      exact counts.rows
    · rw [rows]
      exact counts.lists
    · exact fun _ unlisted => unlisted
  have lists := counts.lists authz sameCaches
  cases method : update.method with
  | delete =>
      simp only [applyGroupMember, method, resolved] at applied
      have removed : countAfter update (countedRow caches updates update.subjectId) = none := by
        simp only [countAfter, method]
      cases counted : countedRow caches updates update.subjectId with
      | none =>
          rw [counted] at applied removed
          cases applied
          rw [counted] at unchanged
          exact unchanged removed rfl
      | some row =>
          rw [counted] at applied
          cases applied
          apply counts.concat
          · exact rows_written counts type none removed
          · intro other sameOther
            rw [countedRow_written type none removed]
            exact lists_congr (sameCaches.trans sameOther.symm) (lists_remove lists counted)
          · exact fun _ unlisted => kept_of_set unlisted
  | _ =>
      simp only [applyGroupMember, method, resolved] at applied
      rcases bind_eq_ok.mp applied with ⟨groupId, readGroup, applied⟩
      rw [← method] at readGroup
      have after := countAfter_of_memberGroupId (by rw [method]; rintro ⟨⟩) readGroup
      split at applied
      · next isNull =>
          cases applied
          exact unchanged (after.1 isNull) rfl
      · next present =>
          rcases bind_eq_ok.mp applied with ⟨permissions, readPermissions, applied⟩
          rw [← method] at readPermissions
          have written := after.2 present permissions readPermissions
          cases applied
          apply counts.concat
          · exact rows_written counts type _ written
          · intro other sameOther
            rw [countedRow_written type _ written]
            apply lists_congr (sameCaches.trans sameOther.symm)
            cases counted : countedRow caches updates update.subjectId with
            | none => exact lists_add lists (by rw [counted]; rintro _ ⟨⟩)
            | some previous =>
                simp only [removeMovedMember]
                split
                · have moved := @lists_add _ _ _ (lists_remove lists counted) update.subjectId
                    ⟨groupId, permissions⟩ (by rw [Function.update_self]; rintro _ ⟨⟩)
                  rwa [Function.update_idem] at moved
                · next stays =>
                    apply lists_add lists
                    intro other found
                    rw [counted] at found
                    cases found
                    exact Decidable.byContradiction stays
          · intro other unlisted
            have kept := kept_of_set unlisted
            cases counted : countedRow caches updates update.subjectId with
            | none =>
                rw [counted] at kept
                exact kept
            | some previous =>
                rw [counted] at kept
                simp only [removeMovedMember] at kept
                split at kept
                · exact kept_of_set kept
                · exact kept

theorem counts_foldlM (sameCaches : authz.caches = caches)
    (counts : Counts caches updates sim.memberOverlay sim.membersByGroup)
    {later : List ValidatedUpdate}
    (applied : (later.filter fun update => update.subjectType = "groupMember").foldlM
      (applyGroupMember authz) sim = .ok next) :
    Counts caches (updates ++ later) next.memberOverlay next.membersByGroup := by
  induction later generalizing updates sim with
  | nil =>
      cases applied
      rwa [List.append_nil]
  | cons update rest induction =>
      rw [List.append_cons]
      by_cases type : update.subjectType = "groupMember"
      · rw [List.filter_cons_of_pos (by simpa using type), List.foldlM_cons] at applied
        rcases bind_eq_ok.mp applied with ⟨middle, step, applied⟩
        exact induction (counts_applyGroupMember sameCaches counts type step) applied
      · rw [List.filter_cons_of_neg (by simpa using type)] at applied
        exact induction (counts_unwritten counts type) applied

theorem counts_acceptAll {actorId : String} (accepts : acceptAll caches actorId actions = .ok sim) :
    Counts caches (updatesOf actions) sim.memberOverlay sim.membersByGroup := by
  induction actions using List.reverseRecOn generalizing sim with
  | nil =>
      cases accepts
      exact counts_nil
  | append_singleton actions action induction =>
      rcases acceptAll_concat accepts with ⟨before, acceptsBefore, authorized⟩
      have counts := induction acceptsBefore
      rcases (accepts_of_authorizeAction authorized).counted with
        ⟨start, finish, sameOverlay, sameLists, applied, overlay, lists⟩
      rw [updatesOf_concat, overlay, lists]
      rw [← sameOverlay, ← sameLists] at counts
      exact counts_foldlM rfl counts applied

theorem capable_of_listed {actorId : String} (accepts : acceptAll caches actorId actions = .ok sim)
    (listed : sim.membersByGroup.get? groupId ≠ none) :
    ∃ id permissions, countedRow caches (updatesOf actions) id = some ⟨groupId, permissions⟩ ∧
      permissions ≠ [] := by
  have counts := counts_acceptAll accepts
  cases found : sim.membersByGroup.get? groupId with
  | none => exact absurd found listed
  | some members =>
      have capable : capableGroup members = true := by
        cases actions using List.reverseRecOn with
        | nil =>
            cases accepts
            cases found
        | append_singleton actions action =>
            rcases acceptAll_concat accepts with ⟨before, _, authorized⟩
            exact (accepts_of_authorizeAction authorized).capable groupId members found
      rw [capableGroup, List.any_eq_true] at capable
      rcases capable with ⟨⟨id, permissions⟩, entry, nonempty⟩
      have lists := counts.lists (buildAuthz caches "" newSim []) rfl groupId id
      rw [ensureGroup, found, Option.getD_some, (OrderedMap.get?_eq_some_iff _ _ _).mpr entry]
        at lists
      exact ⟨id, permissions, permissionsIn_eq_some.mp lists.symm, of_decide_eq_true nonempty⟩

end Counting

/-! ## Updates the guard miscounts -/

/-- The guard counts the row in a group, and the planner drops the Update or reads
other permissions than the guard. -/
def miscounts (row : Option GroupMember) (update : ValidatedUpdate) : Bool :=
  let existing := patchedRow update.method row
  let actorId := (fieldOf update.data "actor_id").or ((existing.map (·.actorId)).getD .null)
  let wire := fieldOf update.data "group_id"
  let groupId := if update.method = .patch then
    wire.or ((existing.map (·.groupId)).getD .null) else wire
  update.method ≠ .delete ∧ groupId ≠ .null ∧
    (actorId.truthy = false ∨ groupId.truthy = false ∨
      fieldOf update.data "permissions" = .bool false)

theorem wrap_or_null {permissions : Term} (settled : permissions ≠ .bool false) :
    (permissions.or .null).wrap = permissions.wrap := by
  cases permissions with
  | bool value =>
      cases value with
      | false => exact absurd rfl settled
      | true => rfl
  | _ => rfl

def Storable (row : Option GroupMember) : Prop :=
  ∀ stored, row = some stored → stored.actorId.truthy = true ∧
    stored.groupId.truthy = true ∧ stored.permissions ≠ .bool false

theorem Term.truthy_or_of_ne_null {wire earlier : Term}
    (known : earlier = .null ∨ earlier.truthy = true) (present : wire.or earlier ≠ .null) :
    (wire.or earlier).truthy = true := by
  cases truthy : wire.truthy with
  | true => rwa [Term.or_of_truthy truthy]
  | false =>
      rw [Term.or_of_not_truthy truthy] at present ⊢
      exact known.resolve_left present

theorem wrap_permissions {wire : Term} {existing : Option GroupMember}
    (storable : Storable existing) (wireSettled : wire ≠ .bool false) :
    ((wire.or ((existing.map (·.permissions)).getD .null)).or .null).wrap =
      if wire = .null then ((existing.map memberRowOf).map (·.permissions)).getD []
      else wire.wrap := by
  split
  · next isNull =>
      rw [isNull, Term.or_of_not_truthy Term.truthy_null]
      cases existing with
      | none => rfl
      | some row => exact wrap_or_null (storable row rfl).2.2
  · next present =>
      have truthy : wire.truthy = true := by
        cases wire with
        | null => exact absurd rfl present
        | bool value =>
            cases value with
            | false => exact absurd rfl wireSettled
            | true => rfl
        | _ => rfl
      rw [Term.or_of_truthy truthy, Term.or_of_truthy truthy]

theorem storable_patchedRow (storable : Storable row) (method : UpdateMethod)
    : Storable (patchedRow method row) := by
  cases method with
  | patch => exact storable
  | _ => exact nofun

theorem countAfter_eq_memberAfter {update : ValidatedUpdate} (storable : Storable row)
    (counted : miscounts row update = false) :
    countAfter update (row.map memberRowOf) = (memberAfter update row).map memberRowOf := by
  have existing := storable_patchedRow storable update.method
  rw [miscounts, decide_eq_false_iff_not, not_and, not_and, not_or, not_or,
    Bool.not_eq_false, Bool.not_eq_false] at counted
  cases method : update.method with
  | delete => simp only [countAfter, memberAfter, method, Option.map_none]
  | put =>
      rw [method] at counted existing
      have named := counted (by rintro ⟨⟩)
      simp only [reduceCtorEq, if_false] at named
      have groupKept : (fieldOf update.data "group_id").or .null =
          fieldOf update.data "group_id" := by
        by_cases isNull : fieldOf update.data "group_id" = .null
        · rw [isNull]
          rfl
        · exact Term.or_null_of_truthy (named isNull).2.1
      simp only [countAfter, memberAfter, method, reduceCtorEq, if_false, patchedRow,
        Option.map_none, Option.getD_none, groupKept]
      by_cases isNull : fieldOf update.data "group_id" = .null
      · simp only [isNull, or_true, if_true]
      · have ends := named isNull
        have permissions := wrap_permissions existing ends.2.2
        have named : ¬ (fieldOf update.data "actor_id").or .null = .null :=
          Term.ne_null_of_truthy ends.1
        simp only [isNull, named, or_false, if_false, Option.map_some, memberRowOf]
        exact congrArg (fun granted => some (MemberRow.mk _ granted)) permissions.symm
  | patch =>
      rw [method] at counted existing
      have named := counted (by rintro ⟨⟩)
      simp only [if_true, patchedRow] at named
      simp only [countAfter, memberAfter, method, if_true, patchedRow, Option.map_map]
      have group : (row.map ((·.groupId) ∘ memberRowOf)) = row.map (·.groupId) := rfl
      rw [group]
      by_cases isNull : (fieldOf update.data "group_id").or
          ((row.map (·.groupId)).getD .null) = .null
      · simp only [isNull, or_true, if_true]
      · have ends := named isNull
        have permissions := wrap_permissions storable ends.2.2
        rw [Option.map_map] at permissions
        simp only [isNull, Term.ne_null_of_truthy ends.1, or_false, if_false, Option.map_some,
          memberRowOf]
        rw [permissions]

/-! ## The rows the planner leaves -/

def plannedRow (caches : SystemCaches) (updates : List ValidatedUpdate) (id : String) :
    Option GroupMember :=
  (updates.foldl Rows.after caches.rows).members id

theorem plannedRow_concat (caches : SystemCaches) (updates : List ValidatedUpdate)
    (update : ValidatedUpdate) (id : String) :
    plannedRow caches (updates ++ [update]) id =
      if writesMember id update then memberAfter update (plannedRow caches updates id)
      else plannedRow caches updates id := by
  rw [plannedRow, List.foldl_concat, writesMember]
  simp only [decide_eq_true_eq]
  rfl

theorem storable_memberAfter (storable : Storable row) (update : ValidatedUpdate)
    : Storable (memberAfter update row) := by
  have existing := storable_patchedRow storable update.method
  intro stored left
  rw [memberAfter] at left
  split at left
  · cases left
  · have actorKnown : ((patchedRow update.method row).map GroupMember.actorId).getD .null = .null ∨
        (((patchedRow update.method row).map GroupMember.actorId).getD .null).truthy = true := by
      cases found : patchedRow update.method row with
      | none => exact .inl rfl
      | some previous => exact .inr (existing previous found).1
    have groupKnown : ((patchedRow update.method row).map GroupMember.groupId).getD .null = .null ∨
        (((patchedRow update.method row).map GroupMember.groupId).getD .null).truthy = true := by
      cases found : patchedRow update.method row with
      | none => exact .inl rfl
      | some previous => exact .inr (existing previous found).2.1
    dsimp only at left
    split at left
    · exact storable stored left
    · next named =>
        cases left
        rw [not_or] at named
        exact ⟨Term.truthy_or_of_ne_null actorKnown named.1,
          Term.truthy_or_of_ne_null groupKnown named.2, Term.or_null_ne_false _⟩

section Planned

variable {caches : SystemCaches} {updates : List ValidatedUpdate} {id : String}

theorem storable_plannedRow : Storable (plannedRow caches updates id) := by
  induction updates using List.reverseRecOn with
  | nil =>
      intro stored found
      have named := caches.groups.named found
      exact ⟨named.2.1, named.2.2, caches.groups.settled found⟩
  | append_singleton updates update induction =>
      rw [plannedRow_concat]
      split
      · exact storable_memberAfter induction update
      · exact induction

/-- Some accepted Update of the member row is miscounted. -/
def Clouded (caches : SystemCaches) (updates : List ValidatedUpdate) (id : String) : Prop :=
  ∃ before update after, updates = before ++ update :: after ∧ writesMember id update = true ∧
    miscounts (plannedRow caches before id) update = true

variable {later : List ValidatedUpdate}

theorem clouded_append (clouded : Clouded caches updates id) :
    Clouded caches (updates ++ later) id := by
  rcases clouded with ⟨before, update, after, split, miscounted⟩
  exact ⟨before, update, after ++ later, by rw [split]; simp, miscounted⟩

theorem countedRow_eq_plannedRow (clear : ¬ Clouded caches updates id) :
    countedRow caches updates id = (plannedRow caches updates id).map memberRowOf := by
  induction updates using List.reverseRecOn with
  | nil => rfl
  | append_singleton updates update induction =>
      have same := induction fun clouded => clear (clouded_append clouded)
      rw [countedRow_concat, plannedRow_concat, same]
      split
      · next writes =>
          apply countAfter_eq_memberAfter storable_plannedRow
          cases miscounted : miscounts (plannedRow caches updates id) update with
          | false => rfl
          | true => exact absurd ⟨updates, update, [], rfl, writes, miscounted⟩ clear
      · rfl

/-- The table's row, or an accepted Update of the row, names the group. -/
def NamesGroup (caches : SystemCaches) (updates : List ValidatedUpdate) (groupId : Term)
    (id : String) : Prop :=
  (∃ row, caches.groups.getGroupMember id = some row ∧ row.groupId = groupId) ∨
    ∃ update ∈ updates, writesMember id update = true ∧
      fieldOf update.data "group_id" = groupId

theorem namesGroup_append {groupId : Term} (names : NamesGroup caches updates groupId id) :
    NamesGroup caches (updates ++ later) groupId id := by
  rcases names with stored | ⟨update, member, holds⟩
  · exact .inl stored
  · exact .inr ⟨update, List.mem_append_left _ member, holds⟩

theorem groupId_memberAfter {update : ValidatedUpdate} {row : Option GroupMember}
    {left : GroupMember} (after : memberAfter update row = some left) :
    left.groupId = fieldOf update.data "group_id" ∨
      ∃ previous, row = some previous ∧ left.groupId = previous.groupId := by
  rw [memberAfter] at after
  split at after
  · cases after
  · dsimp only at after
    split at after
    · exact .inr ⟨left, after, rfl⟩
    · next named =>
        cases after
        rw [not_or] at named
        dsimp only at named ⊢
        cases truthy : (fieldOf update.data "group_id").truthy with
        | true => exact .inl (Term.or_of_truthy truthy _)
        | false =>
            right
            rw [Term.or_of_not_truthy truthy] at named ⊢
            cases method : update.method with
            | patch =>
                rw [method] at named
                cases row with
                | none => exact absurd rfl named.2
                | some previous => exact ⟨previous, rfl, rfl⟩
            | _ =>
                rw [method] at named
                exact absurd rfl named.2

theorem groupId_countAfter {update : ValidatedUpdate} {row : Option MemberRow}
    {left : MemberRow} (after : countAfter update row = some left) :
    left.groupId = fieldOf update.data "group_id" ∨
      ∃ previous, row = some previous ∧ left.groupId = previous.groupId := by
  cases method : update.method with
  | delete =>
      simp only [countAfter, method] at after
      cases after
  | put =>
      simp only [countAfter, method, reduceCtorEq, if_false] at after
      by_cases isNull : fieldOf update.data "group_id" = .null
      · rw [if_pos isNull] at after
        exact .inr ⟨left, after, rfl⟩
      · rw [if_neg isNull] at after
        cases after
        exact .inl rfl
  | patch =>
      simp only [countAfter, method, if_true, patchedRow] at after
      by_cases isNull : (fieldOf update.data "group_id").or
          ((row.map (·.groupId)).getD .null) = .null
      · rw [if_pos isNull] at after
        exact .inr ⟨left, after, rfl⟩
      · rw [if_neg isNull] at after
        cases after
        cases truthy : (fieldOf update.data "group_id").truthy with
        | true => exact .inl (Term.or_of_truthy truthy _)
        | false =>
            right
            rw [Term.or_of_not_truthy truthy] at isNull ⊢
            cases row with
            | none => exact absurd rfl isNull
            | some previous => exact ⟨previous, rfl, rfl⟩

theorem namesGroup_of_plannedRow {row : GroupMember}
    (left : plannedRow caches updates id = some row) :
    NamesGroup caches updates row.groupId id := by
  induction updates using List.reverseRecOn generalizing row with
  | nil => exact .inl ⟨row, left, rfl⟩
  | append_singleton updates update induction =>
      rw [plannedRow_concat] at left
      split at left
      · next writes =>
          rcases groupId_memberAfter left with wire | ⟨previous, before, same⟩
          · exact .inr ⟨update, List.mem_append_right _ (List.mem_singleton_self _), writes,
              wire.symm⟩
          · rw [same]
            exact namesGroup_append (induction before)
      · exact namesGroup_append (induction left)

theorem namesGroup_of_countedRow {row : MemberRow}
    (left : countedRow caches updates id = some row) :
    NamesGroup caches updates row.groupId id := by
  induction updates using List.reverseRecOn generalizing row with
  | nil =>
      rcases Option.map_eq_some_iff.mp left with ⟨stored, found, same⟩
      exact .inl ⟨stored, found, same ▸ rfl⟩
  | append_singleton updates update induction =>
      rw [countedRow_concat] at left
      split at left
      · next writes =>
          rcases groupId_countAfter left with wire | ⟨previous, before, same⟩
          · exact .inr ⟨update, List.mem_append_right _ (List.mem_singleton_self _), writes,
              wire.symm⟩
          · rw [same]
            exact namesGroup_append (induction before)
      · exact namesGroup_append (induction left)

end Planned

/-! ## Capable groups -/

def capable (caches : SystemCaches) (groupId : Term) : Bool :=
  (caches.groups.groupMemberIds groupId).any fun id =>
    ((caches.groups.getGroupMember id).any fun row => row.permissions.wrap ≠ [])

theorem capable_iff {caches : SystemCaches} :
    capable caches groupId = true ↔ ∃ id row, caches.rows.members id = some row ∧
      row.groupId = groupId ∧ row.permissions.wrap ≠ [] := by
  rw [capable, List.any_eq_true]
  constructor
  · intro found
    rcases found with ⟨id, member, granted⟩
    rw [GroupCache.groupMemberIds, Bag.mem_lookup, caches.groups.byGroup] at member
    rcases member with ⟨row, stored, inGroup⟩
    have read : caches.groups.getGroupMember id = some row := stored
    rw [read, Option.any_some, decide_eq_true_eq] at granted
    exact ⟨id, row, stored, inGroup, granted⟩
  · intro found
    rcases found with ⟨id, row, stored, inGroup, granted⟩
    have read : caches.groups.getGroupMember id = some row := stored
    refine ⟨id, ?_, ?_⟩
    · rw [GroupCache.groupMemberIds, Bag.mem_lookup, caches.groups.byGroup]
      exact ⟨row, stored, inGroup⟩
    · rw [read, Option.any_some, decide_eq_true_eq]
      exact granted

/-- The row is a capable member of the group. -/
def SeatedIn (groupId : Term) (row : Option GroupMember) : Prop :=
  ∃ member, row = some member ∧ member.groupId = groupId ∧ member.permissions.wrap ≠ []

/-- An accepted `groupMember` Update leaves its row in the group with permissions. -/
def GivesMember (caches : SystemCaches) (updates : List ValidatedUpdate) (groupId : Term) :
    Prop :=
  ∃ before update after, updates = before ++ update :: after ∧
    update.subjectType = "groupMember" ∧
    SeatedIn groupId (plannedRow caches (before ++ [update]) update.subjectId)

/-- Every group that had a capable member, or was given one, has one in the tables
`after`. -/
def KeepsCapable (caches : SystemCaches) (updates : List ValidatedUpdate)
    (after : SystemCaches) : Prop :=
  ∀ groupId, capable caches groupId = true ∨ GivesMember caches updates groupId →
    capable after groupId = true

/-- The Update takes a capable member of the group out of it, or its permissions away. A put
without an actor or a group is dropped. -/
def unseats (groupId : Term) (update : ValidatedUpdate) : Bool :=
  let wire := fieldOf update.data "group_id"
  let permissions := fieldOf update.data "permissions"
  match update.method with
  | .delete => true
  | .put =>
      (fieldOf update.data "actor_id").truthy && wire.truthy &&
        (wire ≠ groupId || (permissions.or .null).wrap = [])
  | .patch => (wire.truthy && wire ≠ groupId) || (permissions.truthy && permissions.wrap = [])

/-- No Update of the row takes it out of the group or its permissions away. -/
def Unharmed (groupId : Term) (updates : List ValidatedUpdate) (id : String) : Prop :=
  ∀ update ∈ updates, writesMember id update = true → unseats groupId update = false

/-- A member that an Update gives the group, and no later one takes away. -/
def KeptMember (caches : SystemCaches) (updates : List ValidatedUpdate) (groupId : Term) : Prop :=
  ∃ before update after, updates = before ++ update :: after ∧
    update.subjectType = "groupMember" ∧
    SeatedIn groupId (plannedRow caches (before ++ [update]) update.subjectId) ∧
    Unharmed groupId after update.subjectId

/-- A member that the group has in the tables, and no Update takes away. -/
def KeptRow (caches : SystemCaches) (updates : List ValidatedUpdate) (groupId : Term) : Prop :=
  ∃ id, SeatedIn groupId (caches.groups.getGroupMember id) ∧ Unharmed groupId updates id

/-- Where a miscounted row's table row or Updates name such a group, it keeps a member that
the request gave it or that it had. -/
def MiscountsCovered (caches : SystemCaches) (updates : List ValidatedUpdate) : Prop :=
  ∀ groupId, (∃ id, Clouded caches updates id ∧ NamesGroup caches updates groupId id) →
    capable caches groupId = true ∨ GivesMember caches updates groupId →
      KeptMember caches updates groupId ∨ KeptRow caches updates groupId

/-! ### What becomes of a member -/

theorem truthy_or {wire earlier : Term} (known : earlier.truthy = true) :
    (wire.or earlier).truthy = true := by
  cases truthy : wire.truthy with
  | true => rwa [Term.or_of_truthy truthy]
  | false => rwa [Term.or_of_not_truthy truthy]

theorem seatedIn_some {member : GroupMember} :
    SeatedIn groupId (some member) ↔
      member.groupId = groupId ∧ member.permissions.wrap ≠ [] := by
  rw [SeatedIn]
  constructor
  · intro seated
    rcases seated with ⟨other, same, seated⟩
    cases same
    exact seated
  · exact fun seated => ⟨member, rfl, seated⟩

theorem seatedIn_patched {update : ValidatedUpdate} {member : GroupMember}
    (storable : Storable (some member)) (seated : SeatedIn groupId (some member))
    (method : update.method = .patch) :
    SeatedIn groupId (memberAfter update (some member)) ↔ unseats groupId update = false := by
  rcases storable member rfl with ⟨actorNamed, groupNamed, settled⟩
  rcases seatedIn_some.mp seated with ⟨inGroup, granted⟩
  have actor := Term.ne_null_of_truthy (@truthy_or (fieldOf update.data "actor_id") _ actorNamed)
  have group := Term.ne_null_of_truthy (@truthy_or (fieldOf update.data "group_id") _ groupNamed)
  have stays : (fieldOf update.data "group_id").or member.groupId = groupId ↔
      ((fieldOf update.data "group_id").truthy &&
        decide (fieldOf update.data "group_id" ≠ groupId)) = false := by
    cases wire : (fieldOf update.data "group_id").truthy with
    | true => simp [Term.or_of_truthy wire]
    | false => simp [Term.or_of_not_truthy wire, inGroup]
  have keeps : (((fieldOf update.data "permissions").or member.permissions).or .null).wrap ≠ [] ↔
      ((fieldOf update.data "permissions").truthy &&
        decide ((fieldOf update.data "permissions").wrap = [])) = false := by
    cases wire : (fieldOf update.data "permissions").truthy with
    | true => simp [Term.or_of_truthy wire]
    | false => simp [Term.or_of_not_truthy wire, wrap_or_null settled, granted]
  simp only [memberAfter, unseats, method, patchedRow, Option.map_some, Option.getD_some, actor,
    group, or_self, if_false, seatedIn_some, stays, keeps, Bool.or_eq_false_iff]

theorem seatedIn_memberAfter {update : ValidatedUpdate} (storable : Storable row)
    (seated : SeatedIn groupId row) :
    SeatedIn groupId (memberAfter update row) ↔ unseats groupId update = false := by
  have present := seated
  rcases present with ⟨member, rfl, _⟩
  cases method : update.method with
  | delete =>
      simp only [memberAfter, unseats, method, Bool.true_eq_false, iff_false]
      rintro ⟨_, impossible, _⟩
      cases impossible
  | put =>
      simp only [memberAfter, unseats, method, patchedRow, Option.map_none, Option.getD_none]
      cases actor : (fieldOf update.data "actor_id").truthy with
      | false => simp [Term.or_of_not_truthy actor, seated]
      | true =>
          cases group : (fieldOf update.data "group_id").truthy with
          | false => simp [Term.or_of_not_truthy group, seated]
          | true =>
              simp only [Term.or_of_truthy actor, Term.or_of_truthy group,
                Term.ne_null_of_truthy actor, Term.ne_null_of_truthy group, or_self, if_false,
                seatedIn_some, Term.or_null_or_null, Bool.and_self, Bool.true_and,
                Bool.or_eq_false_iff, decide_eq_false_iff_not, not_not, ne_eq]
  | patch => exact seatedIn_patched storable seated method

section Kept

variable {caches : SystemCaches} {updates : List ValidatedUpdate} {id : String}

theorem Unharmed.seated {before after : List ValidatedUpdate}
    (seated : SeatedIn groupId (plannedRow caches before id)) (unharmed : Unharmed groupId after id) :
    SeatedIn groupId (plannedRow caches (before ++ after) id) := by
  induction after using List.reverseRecOn with
  | nil => rwa [List.append_nil]
  | append_singleton after update induction =>
      have earlier := induction fun other member => unharmed other (List.mem_append_left _ member)
      rw [← List.append_assoc, plannedRow_concat]
      split
      · next writes =>
          rw [seatedIn_memberAfter storable_plannedRow earlier]
          exact unharmed update (List.mem_append_right _ (List.mem_singleton_self _)) writes
      · exact earlier

theorem Unharmed.concat {update : ValidatedUpdate} (unharmed : Unharmed groupId updates id)
    (other : ¬ writesMember id update = true) : Unharmed groupId (updates ++ [update]) id := by
  intro later member writes
  rcases List.mem_append.mp member with earlier | last
  · exact unharmed later earlier writes
  · rw [List.mem_singleton.mp last] at writes
    exact absurd writes other

theorem seated_cases (seated : SeatedIn groupId (plannedRow caches updates id)) :
    (∃ before update after, updates = before ++ update :: after ∧ writesMember id update = true ∧
        SeatedIn groupId (plannedRow caches (before ++ [update]) id) ∧
        Unharmed groupId after id) ∨
      SeatedIn groupId (caches.groups.getGroupMember id) ∧ Unharmed groupId updates id := by
  induction updates using List.reverseRecOn with
  | nil => exact .inr ⟨seated, nofun⟩
  | append_singleton updates update induction =>
      have here := seated
      rw [plannedRow_concat] at here
      split at here
      · next writes => exact .inl ⟨updates, update, [], rfl, writes, seated, nofun⟩
      · next other =>
          rcases induction here with ⟨before, giving, after, split, writes, given, unharmed⟩ | kept
          · refine .inl ⟨before, giving, after ++ [update], ?_, writes, given,
              unharmed.concat other⟩
            rw [split, List.append_assoc, List.cons_append]
          · exact .inr ⟨kept.1, kept.2.concat other⟩

theorem seated_iff :
    (∃ id, SeatedIn groupId (plannedRow caches updates id)) ↔
      KeptMember caches updates groupId ∨ KeptRow caches updates groupId := by
  constructor
  · intro found
    rcases found with ⟨id, seated⟩
    rcases seated_cases seated with ⟨before, update, after, split, writes, given, unharmed⟩ | kept
    · rcases of_decide_eq_true writes with ⟨type, rfl⟩
      exact .inl ⟨before, update, after, split, type, given, unharmed⟩
    · exact .inr ⟨id, kept⟩
  · intro kept
    rcases kept with ⟨before, update, after, split, type, seated, unharmed⟩ | ⟨id, seated, unharmed⟩
    · refine ⟨update.subjectId, ?_⟩
      rw [split, List.append_cons]
      exact unharmed.seated seated
    · refine ⟨id, ?_⟩
      rw [← List.nil_append updates]
      exact unharmed.seated seated

end Kept

theorem capable_of_clear {caches : SystemCaches} {actorId : String}
    {accepted : List ValidatedAction} {sim : RequestSim}
    (accepts : acceptAll caches actorId accepted = .ok sim)
    (clear : ∀ id, NamesGroup caches (updatesOf accepted) groupId id →
      ¬ Clouded caches (updatesOf accepted) id)
    (needed : capable caches groupId = true ∨ GivesMember caches (updatesOf accepted) groupId) :
    ∃ id row, plannedRow caches (updatesOf accepted) id = some row ∧ row.groupId = groupId ∧
      row.permissions.wrap ≠ [] := by
  have fromCounted : ∀ id permissions,
      countedRow caches (updatesOf accepted) id = some ⟨groupId, permissions⟩ →
        permissions ≠ [] → ∃ id row, plannedRow caches (updatesOf accepted) id = some row ∧
          row.groupId = groupId ∧ row.permissions.wrap ≠ [] := by
    intro id permissions counted granted
    have names := namesGroup_of_countedRow counted
    rw [countedRow_eq_plannedRow (clear id names), Option.map_eq_some_iff] at counted
    rcases counted with ⟨row, planned, same⟩
    cases same
    exact ⟨id, row, planned, rfl, granted⟩
  have counts := counts_acceptAll accepts
  cases listed : sim.membersByGroup.get? groupId with
  | some members =>
      rcases capable_of_listed accepts (by rw [listed]; exact nofun) with
        ⟨id, permissions, counted, granted⟩
      exact fromCounted id permissions counted granted
  | none =>
      -- No accepted Update changed a row of the group.
      have untouched := counts.untouched groupId listed
      have fromStart : ∀ id permissions,
          permissionsIn groupId (countedRow caches [] id) = some permissions →
            permissions ≠ [] → ∃ id row, plannedRow caches (updatesOf accepted) id = some row ∧
              row.groupId = groupId ∧ row.permissions.wrap ≠ [] := by
        intro id permissions before granted
        have still := untouched _ (List.prefix_refl _) id
        rw [before] at still
        exact fromCounted id permissions (permissionsIn_eq_some.mp still) granted
      rcases needed with had | ⟨before, update, after, split, _, row, planned, inGroup, granted⟩
      · rcases capable_iff.mp had with ⟨id, row, stored, inGroup, granted⟩
        apply fromStart id row.permissions.wrap _ granted
        have counted : countedRow caches [] id = (some row).map memberRowOf :=
          congrArg (Option.map memberRowOf) stored
        rw [counted, permissionsIn_eq_some, ← inGroup]
        rfl
      · have whole : updatesOf accepted = (before ++ [update]) ++ after := by
          rw [split, List.append_assoc, List.singleton_append]
        have names : NamesGroup caches (updatesOf accepted) groupId update.subjectId := by
          rw [whole, ← inGroup]
          exact namesGroup_append (namesGroup_of_plannedRow planned)
        have clearBefore : ¬ Clouded caches (before ++ [update]) update.subjectId := by
          intro clouded
          apply clear update.subjectId names
          rw [whole]
          exact clouded_append clouded
        have counted := countedRow_eq_plannedRow clearBefore
        rw [planned] at counted
        apply fromStart update.subjectId row.permissions.wrap _ granted
        rw [← untouched (before ++ [update]) (whole ▸ List.prefix_append _ _), counted,
          permissionsIn_eq_some, ← inGroup]
        rfl

/-- After the mutations of the accepted Actions, every group that had a capable member
or was given one has one, exactly when each such group that a miscounted row concerns
keeps one: given and not taken away by a later Update, or in the tables and not taken
away by any. -/
theorem keepsCapable_iff {caches : SystemCaches} {actorId : String}
    {actions accepted : List ValidatedAction} {rejected : List Rejection}
    (authorized : authorize actions actorId caches = .ok (accepted, rejected))
    {plans : List (List Mutation × Overlay)}
    (planned : planAll caches (accepted.map (·.updates)) = .ok plans) :
    KeepsCapable caches (updatesOf accepted)
        (applyCacheMutations caches (mutationsOf plans)) ↔
      MiscountsCovered caches (updatesOf accepted) := by
  rcases acceptAll_of_authorize authorized with ⟨sim, accepts⟩
  have rows : (applyCacheMutations caches (mutationsOf plans)).rows.members =
      plannedRow caches (updatesOf accepted) := by
    rw [rows_planAll planned, ← List.flatMap_def]
    rfl
  constructor
  · intro keeps groupId _ needed
    have left := capable_iff.mp (keeps groupId needed)
    rw [rows] at left
    exact seated_iff.mp left
  · intro covered groupId needed
    rw [capable_iff, rows]
    by_cases concerned : ∃ id, Clouded caches (updatesOf accepted) id ∧
        NamesGroup caches (updatesOf accepted) groupId id
    · exact seated_iff.mpr (covered groupId concerned needed)
    · exact capable_of_clear accepts
        (fun id names clouded => concerned ⟨id, clouded, names⟩) needed

/-- A group `g` with the one member row `k`, whose actor `a` may change its members. -/
def administeredGroup : SystemCaches :=
  applyCacheMutations .empty
    [.entityType "k" "groupMember",
      .groupMemberPut ⟨"k", .string "g", .string "a", .list [.string "groupMember.*"]⟩]

/-- A second member of `g`, whose row names `actorFields`. -/
def secondMember (actorFields : List (String × Term)) : ValidatedUpdate where
  id := "u-second"
  subjectId := "k2"
  subjectType := "groupMember"
  method := .put
  data := .map [("fields", .map (actorFields ++
    [("group_id", .map [("value", .string "g")]),
      ("permissions", .map [("value", .list [.string "task.*"])])]))]

def firstMemberDelete : ValidatedUpdate where
  id := "u-first"
  subjectId := "k"
  subjectType := "groupMember"
  method := .delete
  data := .null

def handOver (actorFields : List (String × Term)) : ValidatedAction where
  id := "act"
  actorId := "a"
  hlc := 1
  updates := [secondMember actorFields, firstMemberDelete]

def namedActor : List (String × Term) := [("actor_id", .map [("value", .string "b")])]

theorem keepsCapable_handedOver :
    MiscountsCovered administeredGroup (updatesOf [handOver namedActor]) ∧
      KeepsCapable administeredGroup (updatesOf [handOver namedActor])
        (applyCacheMutations administeredGroup
          (mutationsOf (plansOf administeredGroup [handOver namedActor]))) := by
  have covered : MiscountsCovered administeredGroup (updatesOf [handOver namedActor]) := by
    intro groupId concerned
    rcases concerned with ⟨id, ⟨before, update, after, split, writes, miscounted⟩, _⟩
    exfalso
    have whole : [secondMember namedActor, firstMemberDelete] = before ++ update :: after := split
    cases before with
    | nil =>
        cases whole
        have same : "k2" = id := (of_decide_eq_true writes).2
        subst same
        cases miscounted
    | cons first before =>
        cases before with
        | nil =>
            cases whole
            have same : "k" = id := (of_decide_eq_true writes).2
            subst same
            cases miscounted
        | cons second before =>
            have lengths := congrArg List.length whole
            simp at lengths
  have authorized : authorize [handOver namedActor] "a" administeredGroup =
      .ok ([handOver namedActor], []) := rfl
  exact ⟨covered, (keepsCapable_iff authorized rfl).mpr covered⟩

/-- Without an actor the second row is counted by the guard and dropped by the
planner. -/
theorem keepsCapable_abandoned :
    ¬ ∀ caches actorId actions accepted rejected plans,
      authorize actions actorId caches = .ok (accepted, rejected) →
      planAll caches (accepted.map (·.updates)) = .ok plans →
      KeepsCapable caches (updatesOf accepted)
        (applyCacheMutations caches (mutationsOf plans)) := by
  intro keeps
  have left := keeps administeredGroup "a" [handOver []] [handOver []] []
    (plansOf administeredGroup [handOver []]) rfl rfl (.string "g") (.inl rfl)
  cases left

end Authorizer

end Ebb.Access
