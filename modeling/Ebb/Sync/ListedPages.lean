import Ebb.Sync.ListedRows

namespace Ebb.Sync.GroupListing

/-! What the pages of a listing ship: the cursor of a page stands for what is left of the
members and memberships, and following the cursors ships all of it. -/

variable {log : OrderedMap String Row} {s : Store}

/-! ## Pages -/

theorem ascending_membersOf (named : Named log) (groupId : String) :
    (membersOf log groupId).Pairwise fun left right => memberKey left < memberKey right :=
  Keyset.ascending_ordered memberKey (distinct_filtered named memberKey_separates _)

theorem ascending_membershipsOf (named : Named log) (groupId : String) :
    (membershipsOf log groupId).Pairwise fun left right => left.id < right.id :=
  Keyset.ascending_ordered Row.id (distinct_filtered named (fun same => same) _)

variable {after : Option String} {left : List Row} {key : CursorKey}

theorem gives_pageRelationshipRows (named : Named log) {groupId : String} {window rest : List Row}
    (cut : Keyset.behind Row.id after (membershipsOf log groupId) = window ++ rest) :
    Gives log (pageRelationshipRows groupId after (window.map membershipPair)
      (liveAmong log (namedIds (window.map membershipPair)))) (linkedRows log window) := by
  rw [pageRelationshipRows, List.getLast?_map]
  cases ends : window.getLast? with
  | none =>
      rw [List.getLast?_eq_none_iff.mp ends]
      exact Gives.pure []
  | some last =>
      have ids := gives_listPageRelationshipIds named groupId after last.id
      have upTo := Keyset.filter_upTo_page Row.id (ascending_membershipsOf named groupId) cut ends
      rw [upTo] at ids
      have loaded := gives_loadLiveRows log ((windowIds log window).eraseDups.map some)
      exact ids.bind (loaded.bind (Gives.pure _))

def windowRows (log : OrderedMap String Row) (window : List Row) : List Row :=
  namedRows log window ++ linkedRows log window

theorem gives_buildMembershipPage (named : Named log) {groupId : String} (limit : Nat)
    (behind : Keyset.behind Row.id after (membershipsOf log groupId) = left) (before : List Row) :
    Gives log (buildMembershipPage groupId limit before after)
      (before ++ windowRows log (left.take limit),
        nextMembershipKey (((left.drop limit).take 1).map membershipPair)
          ((left.take limit).map membershipPair).getLast?,
        decide (left.drop limit ≠ [])) := by
  have entries := gives_listEntityGroupMemberships named groupId after (limit + 1)
  have read : ((((membershipsOf log groupId).filter fun row => after.all fun last => last < row.id).take
      (limit + 1)).map fun row => (row.id, row.entityId)) =
        (left.take (limit + 1)).map membershipPair := by
    rw [← behind]
    rfl
  have taken : ((left.take (limit + 1)).map membershipPair).take limit =
      (left.take limit).map membershipPair := by
    rw [← List.map_take, List.take_take, Nat.min_eq_left (Nat.le_succ limit)]
  have rest : ((left.take (limit + 1)).map membershipPair).drop limit =
      ((left.drop limit).take 1).map membershipPair := by
    rw [← List.map_drop, List.drop_take, Nat.add_sub_cancel_left]
  have more : decide (((left.drop limit).take 1).map membershipPair ≠ []) =
      decide (left.drop limit ≠ []) := by
    rw [decide_eq_decide]
    cases left.drop limit with
    | nil => simp
    | cons row rest => simp
  rw [read] at entries
  have loaded := gives_loadLiveRows log (namedIds ((left.take limit).map membershipPair))
  have related := gives_pageRelationshipRows named
    (behind.trans (List.take_append_drop limit left).symm)
  refine entries.bind ?_
  rw [taken, rest, windowRows, ← List.append_assoc, ← more]
  exact loaded.bind (related.bind (Gives.pure _))

/-! ## Keys -/

/-- The keys of a listing whose members all name an actor. -/
inductive Minted : CursorKey → Prop
  | first : Minted (.members none none)
  | member (actor id : String) : Minted (.members (some actor) (some id))
  | membership (id : String) : Minted (.memberships (some id))

theorem Minted.decodes (minted : Minted key) : decodeKey (encodeKey key) = some key := by
  cases minted
  · rfl
  · rfl
  · rfl

def membersLeft (log : OrderedMap String Row) (groupId : String) : CursorKey → List Row
  | .members actorId id => (membersOf log groupId).filter (memberAfter (afterPair actorId id))
  | .memberships _ => []

def membershipsLeft (log : OrderedMap String Row) (groupId : String) : CursorKey → List Row
  | .members _ _ => membershipsOf log groupId
  | .memberships after => Keyset.behind Row.id after (membershipsOf log groupId)

theorem memberAfter_some (actor id : String) (row : Row) :
    memberAfter (some (some actor, some id)) row =
      decide (toLex ((actor : WithBot String), id) < memberKey row) := by
  rw [memberAfter, memberKey, Bool.eq_iff_iff, decide_eq_true_eq, Prod.Lex.toLex_lt_toLex]
  cases row.actorId with
  | none =>
      constructor
      · exact nofun
      · rintro (less | ⟨same, _⟩)
        · exact absurd less not_lt_bot
        · exact absurd same (WithBot.coe_ne_bot)
  | some other =>
      change (decide (actor < other) || (decide (other = actor) && decide (id < row.id))) = true ↔
        (actor : WithBot String) < (other : WithBot String) ∨
          (actor : WithBot String) = (other : WithBot String) ∧ id < row.id
      rw [WithBot.coe_lt_coe, WithBot.coe_inj, Bool.or_eq_true, Bool.and_eq_true, decide_eq_true_eq,
        decide_eq_true_eq, decide_eq_true_eq, eq_comm]

theorem membersLeft_member (log : OrderedMap String Row) (groupId actor id : String) :
    membersLeft log groupId (.members (some actor) (some id)) =
      Keyset.behind memberKey (some (toLex ((actor : WithBot String), id))) (membersOf log groupId) :=
  List.filter_congr fun row _ => memberAfter_some actor id row

theorem membersLeft_first (log : OrderedMap String Row) (groupId : String) :
    membersLeft log groupId (.members none none) = membersOf log groupId :=
  List.filter_eq_self.mpr fun _ _ => rfl

theorem Minted.behind {actorId id : Option String} (minted : Minted (.members actorId id))
    (log : OrderedMap String Row) (groupId : String) :
    ∃ position, membersLeft log groupId (.members actorId id) =
      Keyset.behind memberKey position (membersOf log groupId) := by
  cases minted with
  | first =>
      exact ⟨none, (membersLeft_first log groupId).trans (Keyset.behind_none memberKey _).symm⟩
  | member actor id => exact ⟨_, membersLeft_member log groupId actor id⟩

def memberPair (row : Row) : String × Option String := (row.id, row.actorId)

theorem gives_buildPrefixMembers (named : Named log) {groupId : String}
    (actors : ∀ row ∈ membersOf log groupId, row.actorId.isSome) {actorId id : Option String}
    (minted : Minted (.members actorId id)) (limit : Nat) (acc : List Row)
    (isLeft : membersLeft log groupId (.members actorId id) = left) :
    ∃ nextActor nextId,
      Gives log (buildPrefixMembers groupId limit (afterPair actorId id) acc)
        (acc ++ left.take limit, limit - left.length, .members nextActor nextId) ∧
      (limit - left.length = 0 → Minted (.members nextActor nextId) ∧
        membersLeft log groupId (.members nextActor nextId) = left.drop limit) := by
  by_cases zero : limit = 0
  · subst zero
    refine ⟨actorId, id, ?_, fun _ => ⟨minted, isLeft⟩⟩
    rw [buildPrefixMembers, if_pos rfl, List.take_zero, List.append_nil, Nat.zero_sub]
    cases minted
    · exact Gives.pure _
    · exact Gives.pure _
  · rcases minted.behind log groupId with ⟨position, behind⟩
    have cut : Keyset.behind memberKey position (membersOf log groupId) =
        left.take limit ++ left.drop limit := by
      rw [List.take_append_drop, ← isLeft, behind]
    have listed := gives_listGroupMembers named groupId (afterPair actorId id) (limit + 1)
    have read : ((((membersOf log groupId).filter (memberAfter (afterPair actorId id))).take
        (limit + 1)).map fun row => (row.id, row.actorId)) =
          (left.take (limit + 1)).map memberPair := by
      rw [← isLeft]
      rfl
    have taken : ((left.take (limit + 1)).map memberPair).take limit =
        (left.take limit).map memberPair := by
      rw [← List.map_take, List.take_take, Nat.min_eq_left (Nat.le_succ limit)]
    have remaining : (if ((left.take (limit + 1)).map memberPair).drop limit = [] then
        limit - ((left.take limit).map memberPair).length else 0) = limit - left.length := by
      rw [List.length_map, List.length_take]
      split
      · omega
      · next more =>
          have longer : limit < ((left.take (limit + 1)).map memberPair).length := by
            by_contra short
            exact more (List.drop_eq_nil_of_le (Nat.le_of_not_lt short))
          rw [List.length_map, List.length_take] at longer
          omega
    have rows : ∀ row ∈ left.take limit, row ∈ membersOf log groupId := by
      intro row member
      have inLeft := List.mem_of_mem_take member
      rw [← isLeft, behind] at inLeft
      exact List.mem_of_mem_filter inLeft
    have emitted := gives_emitMembers named rows
    have page : Gives log (buildPrefixMembers groupId limit (afterPair actorId id) acc)
        (acc ++ left.take limit, limit - left.length,
          nextMembersKey ((left.take limit).getLast?.map memberPair)) := by
      rw [buildPrefixMembers, if_neg zero, ← List.getLast?_map, ← remaining]
      rw [read] at listed
      refine listed.bind ?_
      rw [taken]
      exact emitted.bind (Gives.pure _)
    cases ends : (left.take limit).getLast? with
    | none =>
        rw [ends] at page
        refine ⟨_, _, page, fun full => ?_⟩
        have empty : left = [] := by
          rcases List.take_eq_nil_iff.mp (List.getLast?_eq_none_iff.mp ends) with isZero | empty
          · exact absurd isZero zero
          · exact empty
        rw [empty] at full
        exact absurd full zero
    | some last =>
        have member := rows last (List.mem_of_getLast? ends)
        rcases Option.isSome_iff_exists.mp (actors last member) with ⟨actor, isActor⟩
        rw [ends, Option.map_some, memberPair, isActor] at page
        refine ⟨some actor, some last.id, page, fun _ => ⟨.member actor last.id, ?_⟩⟩
        have key : memberKey last = toLex ((actor : WithBot String), last.id) := by
          rw [memberKey, isActor]
          rfl
        rw [membersLeft_member, ← key]
        exact Keyset.behind_page memberKey (ascending_membersOf named groupId) cut ends

/-- Where anything is left, the page hands out a key that stands for it. -/
def Continues (log : OrderedMap String Row) (groupId : String) (members memberships : List Row)
    (next : Option CursorKey) : Prop :=
  members ≠ [] ∨ memberships ≠ [] → ∃ key, next = some key ∧ Minted key ∧
    membersLeft log groupId key = members ∧ membershipsLeft log groupId key = memberships

theorem windowRows_nil (log : OrderedMap String Row) : windowRows log [] = [] := rfl

theorem gives_membershipPage (named : Named log) {groupId : String} {limit : Nat} (some : 0 < limit)
    (behind : Keyset.behind Row.id after (membershipsOf log groupId) = left) (before : List Row) :
    ∃ next, Gives log (buildMembershipPage groupId limit before after)
        (before ++ windowRows log (left.take limit), next, decide (left.drop limit ≠ [])) ∧
      Continues log groupId [] (left.drop limit) next := by
  have page := gives_buildMembershipPage named limit behind before
  refine ⟨_, page, fun more => ?_⟩
  have rest : left.drop limit ≠ [] := more.resolve_left fun none => none rfl
  have cut := behind.trans (List.take_append_drop limit left).symm
  cases ends : (left.take limit).getLast? with
  | none =>
      rcases List.take_eq_nil_iff.mp (List.getLast?_eq_none_iff.mp ends) with isZero | empty
      · omega
      · rw [empty, List.drop_nil] at rest
        exact absurd rfl rest
  | some last =>
      refine ⟨.memberships last.id, ?_, .membership last.id, rfl, ?_⟩
      · rw [List.getLast?_map, ends]
        cases behindPage : left.drop limit with
        | nil => exact absurd behindPage rest
        | cons row others => rfl
      · exact Keyset.behind_page Row.id (ascending_membershipsOf named groupId) cut ends

theorem gives_rowsAfter (named : Named log) (groupId : String) (actorId id : Option String) :
    Gives log (rowsAfter groupId (.members actorId id))
      (decide (membersLeft log groupId (.members actorId id) ≠ [] ∨
        membershipsOf log groupId ≠ [])) := by
  have members := gives_listGroupMembers named groupId (afterPair actorId id) 1
  have memberships := gives_listEntityGroupMemberships named groupId none 1
  have some {β : Type} (rows : List Row) (out : Row → β) : (rows.take 1).map out ≠ [] ↔ rows ≠ [] := by
    cases rows with
    | nil => simp
    | cons row rest => simp
  have every : ((membershipsOf log groupId).filter fun row =>
      (none : Option String).all fun last => last < row.id) = membershipsOf log groupId :=
    Keyset.behind_none Row.id _
  rw [every] at memberships
  have result : decide ((((membersOf log groupId).filter (memberAfter (afterPair actorId id))).take
      1).map (fun row => (row.id, row.actorId)) ≠ [] ∨
        ((membershipsOf log groupId).take 1).map (fun row => (row.id, row.entityId)) ≠ []) =
      decide (membersLeft log groupId (.members actorId id) ≠ [] ∨ membershipsOf log groupId ≠ []) := by
    rw [decide_eq_decide, some, some]
    rfl
  rw [← result]
  exact members.bind (memberships.bind (Gives.pure _))

theorem gives_buildPage_members (named : Named log) {groupId : String} {limit remaining : Nat}
    (key : Option CursorKey) {start : List Row} {actorId id : Option String}
    (built : Gives log (buildPrefix groupId limit key) (start, remaining, .members actorId id))
    (full : remaining = 0 → Minted (.members actorId id) ∧
      membersLeft log groupId (.members actorId id) = left)
    (room : 0 < remaining → left = []) :
    ∃ next, Gives log (buildPage groupId limit key)
        (start ++ windowRows log ((membershipsOf log groupId).take remaining), next,
          decide (left ≠ [] ∨ (membershipsOf log groupId).drop remaining ≠ [])) ∧
      Continues log groupId left ((membershipsOf log groupId).drop remaining) next := by
  by_cases some : 0 < remaining
  · rcases gives_membershipPage named some (Keyset.behind_none Row.id (membershipsOf log groupId))
      start with ⟨next, page, continues⟩
    rw [room some]
    refine ⟨next, ?_, continues⟩
    have more : decide (([] : List Row) ≠ [] ∨ (membershipsOf log groupId).drop remaining ≠ []) =
        decide ((membershipsOf log groupId).drop remaining ≠ []) := by simp
    rw [more]
    refine built.bind ?_
    dsimp only
    rw [if_pos some]
    exact page
  · have none : remaining = 0 := by omega
    rcases full none with ⟨minted, isLeft⟩
    subst none
    rw [List.take_zero, List.drop_zero, windowRows_nil, List.append_nil]
    have after := gives_rowsAfter named groupId actorId id
    rw [isLeft] at after
    refine ⟨if left ≠ [] ∨ membershipsOf log groupId ≠ [] then .some (.members actorId id) else .none,
      ?_, fun more => ⟨.members actorId id, if_pos more, minted, isLeft, rfl⟩⟩
    refine built.bind ?_
    dsimp only
    rw [if_neg some]
    refine after.bind ?_
    by_cases more : left ≠ [] ∨ membershipsOf log groupId ≠ []
    · rw [decide_eq_true more, if_pos rfl, if_pos more]
      exact Gives.pure _
    · rw [decide_eq_false more, if_neg (by simp), if_neg more]
      exact Gives.pure _

theorem gives_buildPage_key (named : Named log) {groupId : String}
    (actors : ∀ row ∈ membersOf log groupId, row.actorId.isSome) {limit : Nat} (some : 0 < limit)
    (minted : Minted key) {members memberships : List Row}
    (isMembers : membersLeft log groupId key = members)
    (isMemberships : membershipsLeft log groupId key = memberships) :
    ∃ next, Gives log (buildPage groupId limit (.some key))
        (members.take limit ++ windowRows log (memberships.take (limit - members.length)), next,
          decide (members.drop limit ≠ [] ∨ memberships.drop (limit - members.length) ≠ [])) ∧
      Continues log groupId (members.drop limit) (memberships.drop (limit - members.length)) next := by
  cases key with
  | members actorId id =>
      rcases gives_buildPrefixMembers named actors minted limit [] isMembers with
        ⟨nextActor, nextId, built, full⟩
      have page := gives_buildPage_members named (.some (.members actorId id)) built full
        fun room => List.drop_eq_nil_of_le (by omega)
      rw [← isMemberships]
      exact page
  | memberships after =>
      have none : members = [] := isMembers.symm
      subst none
      rcases gives_membershipPage named some isMemberships [] with ⟨next, page, continues⟩
      refine ⟨next, ?_, by rw [List.drop_nil]; exact continues⟩
      have more : decide (([] : List Row).drop limit ≠ [] ∨ memberships.drop (limit - ([] : List Row).length) ≠ []) =
          decide (memberships.drop limit ≠ []) := by simp
      rw [more, List.take_nil]
      refine (@Gives.pure log _ (([] : List Row), limit, CursorKey.memberships after)).bind ?_
      dsimp only
      rw [if_pos some]
      exact page

def groupRow (log : OrderedMap String Row) (groupId : String) : Option Row :=
  (liveRow log groupId).filter fun row => row.type = "group"

theorem gives_fetchGroupRow (groupId : String) :
    Gives log (fetchGroupRow groupId) (groupRow log groupId) := by
  have row := Gives.materialize log groupId
  refine row.bind ?_
  cases found : log.get? groupId with
  | none =>
      rw [groupRow, liveRow, found]
      exact Gives.pure _
  | some row =>
      rw [formatLiveEntity, groupRow, liveRow, found]
      by_cases deleted : row.deleted = true
      · rw [if_pos deleted, Option.filter_some_neg (by simp [deleted])]
        exact Gives.pure _
      · rw [if_neg deleted, Option.filter_some_pos (by simp [deleted])]
        dsimp only
        by_cases isGroup : row.type = "group"
        · have kept : (some row).filter (fun row => decide (row.type = "group")) = some row := by
            simp [isGroup]
          rw [if_pos isGroup, kept]
          exact Gives.pure _
        · have dropped : (some row).filter (fun row => decide (row.type = "group")) = none := by
            simp [isGroup]
          rw [if_neg isGroup, dropped]
          exact Gives.pure _

theorem gives_buildPage_start (named : Named log) {groupId : String}
    (actors : ∀ row ∈ membersOf log groupId, row.actorId.isSome) {limit room : Nat}
    (isRoom : limit - (groupRow log groupId).toList.length = room) :
    ∃ next, Gives log (buildPage groupId limit none)
        ((groupRow log groupId).toList ++ (membersOf log groupId).take room ++
          windowRows log ((membershipsOf log groupId).take (room - (membersOf log groupId).length)),
          next,
          decide ((membersOf log groupId).drop room ≠ [] ∨
            (membershipsOf log groupId).drop (room - (membersOf log groupId).length) ≠ [])) ∧
      Continues log groupId ((membersOf log groupId).drop room)
        ((membershipsOf log groupId).drop (room - (membersOf log groupId).length)) next := by
  rcases gives_buildPrefixMembers named actors .first room (groupRow log groupId).toList
    (membersLeft_first log groupId) with ⟨nextActor, nextId, members, full⟩
  have built : Gives log (buildPrefix groupId limit none)
      ((groupRow log groupId).toList ++ (membersOf log groupId).take room,
        room - (membersOf log groupId).length, .members nextActor nextId) := by
    rw [buildPrefix]
    refine (gives_fetchGroupRow groupId).bind ?_
    cases row : groupRow log groupId with
    | none =>
        rw [row] at members isRoom
        rw [← isRoom] at members ⊢
        exact members
    | some row' =>
        rw [row] at members isRoom
        rw [← isRoom] at members ⊢
        exact members
  exact gives_buildPage_members named none built full fun room => List.drop_eq_nil_of_le (by omega)

/-! ## Listings -/

variable {Token : Type} {library : Library Token} {memberOf : String → String → Bool}
  {groupId actorId : String} {limit : Int}

/-- Following the cursors from a page on, to the page that hands out none. -/
inductive Listed (library : Library Token) (memberOf : String → String → Bool)
    (groupId actorId : String) (limit : Int) :
    Store → Option Token → List (Page Token) → Prop
  | last {s next cursor page}
      (ran : (list library memberOf groupId actorId cursor (some limit)).run s = (.ok page, next))
      (ends : page.cursor = none) : Listed library memberOf groupId actorId limit s cursor [page]
  | more {s next cursor page token rest}
      (ran : (list library memberOf groupId actorId cursor (some limit)).run s = (.ok page, next))
      (hands : page.cursor = some token)
      (later : Listed library memberOf groupId actorId limit next (some token) rest) :
      Listed library memberOf groupId actorId limit s cursor (page :: rest)

/-- JSON and base64 bring back the payloads a listing encodes. -/
def Library.RoundTrips (library : Library Token) : Prop :=
  ∀ groupId watermark key, library.decode (library.encode (payload groupId watermark key)) =
    some (payload groupId watermark key)

theorem decodeToken_payload (minted : Minted key) (groupId : String) (watermark : Nat) :
    decodeToken (payload groupId watermark key) groupId = some (watermark, key) := by
  rw [payload, decodeToken]
  simp [lookup_cons_eq, minted.decodes, tokenVersion]

theorem decodeToken_foreign {minted groupId : String} (foreign : minted ≠ groupId)
    (watermark : Nat) (key : CursorKey) : decodeToken (payload minted watermark key) groupId =
      none := by
  rw [payload, decodeToken]
  simp [lookup_cons_eq, foreign]

theorem normalizeLimit_of_valid (positive : 0 < limit) (small : limit ≤ maxLimit) :
    normalizeLimit (some limit) = pure limit.toNat := if_pos ⟨positive, small⟩

def pageOf (library : Library Token) (groupId : String) (watermark : Nat)
    (built : List Row × Option CursorKey × Bool) : Page Token where
  groupId := groupId
  watermark := watermark
  cursor := cursorFor library built.2.2 groupId watermark built.2.1
  hasMore := built.2.2
  entities := built.1

theorem list_eq (authorized : memberOf groupId actorId = true) (positive : 0 < limit)
    (small : limit ≤ maxLimit) (cursor : Option Token) :
    list library memberOf groupId actorId cursor (some limit) = (do
      let (watermark, key) ← resolveCursor library cursor groupId
      materializePrefix key
      let built ← buildPage groupId limit.toNat key
      pure (pageOf library groupId watermark built)) := by
  rw [list, authorized, normalizeLimit_of_valid positive small]
  rfl

theorem gives_list_key (authorized : memberOf groupId actorId = true) (positive : 0 < limit)
    (small : limit ≤ maxLimit) (roundTrips : library.RoundTrips) {key : CursorKey}
    (minted : Minted key) (watermark : Nat) {built : List Row × Option CursorKey × Bool}
    (builds : Gives log (buildPage groupId limit.toNat (some key)) built) :
    Gives log (list library memberOf groupId actorId
      (some (encodeCursor library groupId watermark key)) (some limit))
        (pageOf library groupId watermark built) := by
  have resolved : resolveCursor library (some (encodeCursor library groupId watermark key)) groupId =
      pure (watermark, some key) := by
    rw [resolveCursor, encodeCursor, roundTrips, Option.bind_some, decodeToken_payload minted]
  rw [list_eq authorized positive small, resolved]
  exact (Gives.pure _).bind ((Gives.pure ()).bind (builds.bind (Gives.pure _)))

theorem ran_list_start (consistent : Consistent s) (authorized : memberOf groupId actorId = true)
    (positive : 0 < limit) (small : limit ≤ maxLimit) {built : List Row × Option CursorKey × Bool}
    (builds : Gives s.log (buildPage groupId limit.toNat none) built) :
    ∃ next, (list library memberOf groupId actorId none (some limit)).run s =
      (.ok (pageOf library groupId s.committedWatermark built), next) ∧ Ready s.log next := by
  rcases consistent.materializePrefix with ⟨middle, ran, ready⟩
  rcases builds middle ready with ⟨next, ranOn, further⟩
  refine ⟨next, ?_, further⟩
  have resolved : (resolveCursor library (none : Option Token) groupId).run s =
      (.ok (s.committedWatermark, none), s) := rfl
  rw [list_eq authorized positive small, run_bind_ok resolved]
  dsimp only
  rw [run_bind_ok ran, run_bind_ok ranOn]
  rfl

theorem listed_key (named : Named log) (actors : ∀ row ∈ membersOf log groupId, row.actorId.isSome)
    (authorized : memberOf groupId actorId = true) (positive : 0 < limit) (small : limit ≤ maxLimit)
    (roundTrips : library.RoundTrips) (watermark : Nat) (minted : Minted key)
    {members memberships : List Row} (isMembers : membersLeft log groupId key = members)
    (isMemberships : membershipsLeft log groupId key = memberships) (ready : Ready log s) :
    ∃ (pages : List (Page Token)) (windows : List (List Row)),
      Listed library memberOf groupId actorId limit s
        (some (encodeCursor library groupId watermark key)) pages ∧
      windows.flatten = memberships ∧ (∀ window ∈ windows, window.length ≤ limit.toNat) ∧
      (pages.flatMap Page.entities).Perm (members ++ windows.flatMap (windowRows log)) := by
  have some' : 0 < limit.toNat := by omega
  induction size : members.length + memberships.length using Nat.strongRecOn
    generalizing members memberships key s with
  | ind bound induction =>
      rcases gives_buildPage_key named actors some' minted isMembers isMemberships with
        ⟨nextKey, builds, continues⟩
      have gives := @gives_list_key log _ library memberOf groupId actorId limit authorized positive
        small roundTrips key minted watermark _ builds
      rcases gives s ready with ⟨next, ran, still⟩
      by_cases more : members.drop limit.toNat ≠ [] ∨
          memberships.drop (limit.toNat - members.length) ≠ []
      · rcases continues more with ⟨key', rfl, minted', isMembers', isMemberships'⟩
        have shorter : (members.drop limit.toNat).length +
            (memberships.drop (limit.toNat - members.length)).length < bound := by
          have some'' : 0 < members.length + memberships.length := by
            rcases more with members' | memberships'
            · have count := List.length_pos_iff.mpr members'
              rw [List.length_drop] at count
              omega
            · have count := List.length_pos_iff.mpr memberships'
              rw [List.length_drop] at count
              omega
          rw [List.length_drop, List.length_drop]
          omega
        rcases induction _ shorter minted' isMembers' isMemberships' still rfl with
          ⟨pages, windows, later, flatten, lengths, ships⟩
        refine ⟨_ :: pages, memberships.take (limit.toNat - members.length) :: windows,
          .more ran ?_ later, ?_, ?_, ?_⟩
        · rw [pageOf, cursorFor, decide_eq_true more]
          rfl
        · rw [List.flatten_cons, flatten, List.take_append_drop]
        · intro window member
          rcases List.mem_cons.mp member with rfl | others
          · rw [List.length_take]
            omega
          · exact lengths window others
        · rw [List.flatMap_cons, List.flatMap_cons]
          refine (ships.append_left _).trans ?_
          have cut := List.take_append_drop limit.toNat members
          have moved := List.perm_append_comm_assoc
            (windowRows log (memberships.take (limit.toNat - members.length)))
            (members.drop limit.toNat) (windows.flatMap (windowRows log))
          have all := moved.append_left (members.take limit.toNat)
          rw [← List.append_assoc, ← List.append_assoc (members.take limit.toNat), cut] at all
          exact all
      · have noMembers : members.drop limit.toNat = [] := by
          by_contra left
          exact more (.inl left)
        have noMemberships : memberships.drop (limit.toNat - members.length) = [] := by
          by_contra left
          exact more (.inr left)
        have allMembers : members.take limit.toNat = members :=
          List.take_of_length_le (List.drop_eq_nil_iff.mp noMembers)
        have allMemberships : memberships.take (limit.toNat - members.length) = memberships :=
          List.take_of_length_le (List.drop_eq_nil_iff.mp noMemberships)
        refine ⟨[_], [memberships], .last ran ?_, ?_, ?_, ?_⟩
        · rw [pageOf, cursorFor, decide_eq_false more]
          rfl
        · rw [List.flatten_cons, List.flatten_nil, List.append_nil]
        · intro window member
          have short := List.drop_eq_nil_iff.mp noMemberships
          rw [List.mem_singleton.mp member]
          omega
        · rw [List.flatMap_singleton, List.flatMap_singleton, pageOf, allMembers, allMemberships]

/-! ## What a listing ships -/

/-- The rows of the Group's state: its row, its members, its memberships with the entities they
name, and the relationships of these. -/
def Belongs (log : OrderedMap String Row) (groupId : String) (row : Row) : Prop :=
  liveRow log row.id = some row ∧
    (row.id = groupId ∧ row.type = "group" ∨ row.filed "groupMember" groupId = true ∨
      names (membershipsOf log groupId) row.id = true ∨
      links log (membershipsOf log groupId) row = true)

theorem count_ids {rows : List Row} (nodup : (rows.map Row.id).Nodup)
    {ships : Prop} [Decidable ships]
    {id : String} (listed : id ∈ rows.map Row.id ↔ ships) :
    (rows.map Row.id).count id = if ships then 1 else 0 := by
  rw [nodup.count]
  exact if_congr listed rfl rfl

theorem mem_ids_namedRows (named : Named log) (window : List Row) (id : String) :
    id ∈ (namedRows log window).map Row.id ↔
      (names window id && (liveRow log id).isSome) = true := by
  rw [List.mem_map, Bool.and_eq_true, Option.isSome_iff_exists]
  constructor
  · rintro ⟨row, member, rfl⟩
    rcases (mem_namedRows named window row).mp member with ⟨named', live⟩
    exact ⟨named', row, live⟩
  · rintro ⟨named', row, live⟩
    have same := ((liveRow_eq_some named).mp live).2.1
    exact ⟨row, (mem_namedRows named window row).mpr ⟨same ▸ named', same ▸ live⟩, same⟩

theorem mem_ids_linkedRows (named : Named log) (window : List Row) (id : String) :
    id ∈ (linkedRows log window).map Row.id ↔ (liveRow log id).any (links log window) = true := by
  rw [List.mem_map, Option.any_eq_true]
  constructor
  · rintro ⟨row, member, rfl⟩
    rcases (mem_linkedRows named window row).mp member with ⟨linked, live⟩
    exact ⟨row, live, linked⟩
  · rintro ⟨row, live, linked⟩
    have same := ((liveRow_eq_some named).mp live).2.1
    exact ⟨row, (mem_linkedRows named window row).mpr ⟨linked, same ▸ live⟩, same⟩

theorem count_windowRows (named : Named log) (windows : List (List Row)) (id : String) :
    ((windows.flatMap (windowRows log)).map Row.id).count id =
      windows.countP (fun window => names window id && (liveRow log id).isSome) +
        windows.countP fun window => (liveRow log id).any (links log window) := by
  induction windows with
  | nil => rfl
  | cons window rest induction =>
      rw [List.flatMap_cons, windowRows, List.map_append, List.map_append, List.count_append,
        List.count_append, induction, List.countP_cons, List.countP_cons,
        count_ids (nodup_namedRows named window) (mem_ids_namedRows named window id),
        count_ids (nodup_linkedRows named window) (mem_ids_linkedRows named window id)]
      omega

theorem mem_windowRows (named : Named log) (windows : List (List Row)) (row : Row) :
    row ∈ windows.flatMap (windowRows log) ↔ liveRow log row.id = some row ∧
      (names windows.flatten row.id = true ∨ links log windows.flatten row = true) := by
  induction windows with
  | nil => simp [names, links]
  | cons window rest induction =>
      have split : (names (window :: rest).flatten row.id = true ∨
          links log (window :: rest).flatten row = true) ↔
            (names window row.id = true ∨ links log window row = true) ∨
              (names rest.flatten row.id = true ∨ links log rest.flatten row = true) := by
        have named' : names (window :: rest).flatten row.id =
            (names window row.id || names rest.flatten row.id) := by
          rw [names, List.flatten_cons, List.any_append, ← names, ← names]
        have linked : links log (window :: rest).flatten row =
            (links log window row || links log rest.flatten row) := by
          rw [links, links, links, ← Bool.and_or_distrib_left]
          congr 1
          cases row.sourceId with
          | none => rfl
          | some source =>
              rw [Option.any_some, Option.any_some, Option.any_some, List.flatten_cons,
                List.any_append, Bool.and_or_distrib_left]
        rw [named', linked, Bool.or_eq_true, Bool.or_eq_true]
        exact or_or_or_comm
      rw [List.flatMap_cons, List.mem_append, windowRows, List.mem_append, mem_namedRows named,
        mem_linkedRows named, induction, split]
      constructor
      · rintro ((⟨named', live⟩ | ⟨linked, live⟩) | ⟨live, later⟩)
        · exact ⟨live, .inl (.inl named')⟩
        · exact ⟨live, .inl (.inr linked)⟩
        · exact ⟨live, .inr later⟩
      · rintro ⟨live, (named' | linked) | later⟩
        · exact .inl (.inl ⟨named', live⟩)
        · exact .inl (.inr ⟨linked, live⟩)
        · exact .inr ⟨live, later⟩

theorem mem_groupRow (named : Named log) {groupId : String} {row : Row} :
    row ∈ (groupRow log groupId).toList ↔
      liveRow log row.id = some row ∧ row.id = groupId ∧ row.type = "group" := by
  rw [Option.mem_toList, groupRow, Option.filter_eq_some_iff, decide_eq_true_eq]
  constructor
  · rintro ⟨live, isGroup⟩
    have same := ((liveRow_eq_some named).mp live).2.1
    exact ⟨same ▸ live, same, isGroup⟩
  · rintro ⟨live, same, isGroup⟩
    exact ⟨same ▸ live, isGroup⟩

theorem listed_start (consistent : Consistent s)
    (actors : ∀ row ∈ membersOf s.log groupId, row.actorId.isSome)
    (authorized : memberOf groupId actorId = true) (positive : 0 < limit) (small : limit ≤ maxLimit)
    (roundTrips : library.RoundTrips) :
    ∃ (pages : List (Page Token)) (windows : List (List Row)),
      Listed library memberOf groupId actorId limit s none pages ∧
      windows.flatten = membershipsOf s.log groupId ∧
      (∀ window ∈ windows, window.length ≤ limit.toNat) ∧
      (pages.flatMap Page.entities).Perm ((groupRow s.log groupId).toList ++
        (membersOf s.log groupId ++ windows.flatMap (windowRows s.log))) := by
  have named := consistent.filed.logged
  generalize isRoom : limit.toNat - (groupRow s.log groupId).toList.length = room
  rcases gives_buildPage_start named actors isRoom with ⟨nextKey, builds, continues⟩
  rcases @ran_list_start s _ library memberOf groupId actorId limit consistent authorized positive
    small _ builds with ⟨next, ran, ready⟩
  by_cases more : (membersOf s.log groupId).drop room ≠ [] ∨
      (membershipsOf s.log groupId).drop (room - (membersOf s.log groupId).length) ≠ []
  · rcases continues more with ⟨key, rfl, minted, isMembers, isMemberships⟩
    rcases listed_key named actors authorized positive small roundTrips s.committedWatermark minted
      isMembers isMemberships ready with ⟨pages, windows, later, flatten, lengths, ships⟩
    refine ⟨_ :: pages, (membershipsOf s.log groupId).take
      (room - (membersOf s.log groupId).length) :: windows, .more ran ?_ later, ?_, ?_, ?_⟩
    · rw [pageOf, cursorFor, decide_eq_true more]
      rfl
    · rw [List.flatten_cons, flatten, List.take_append_drop]
    · intro window member
      rcases List.mem_cons.mp member with rfl | others
      · rw [List.length_take]
        omega
      · exact lengths window others
    · rw [List.flatMap_cons, List.flatMap_cons]
      refine (ships.append_left _).trans ?_
      have cut := List.take_append_drop room (membersOf s.log groupId)
      have moved := List.perm_append_comm_assoc
        (windowRows s.log ((membershipsOf s.log groupId).take
          (room - (membersOf s.log groupId).length)))
        ((membersOf s.log groupId).drop room) (windows.flatMap (windowRows s.log))
      have all := (moved.append_left ((membersOf s.log groupId).take room)).append_left
        (groupRow s.log groupId).toList
      rw [← List.append_assoc ((membersOf s.log groupId).take room) ((membersOf s.log groupId).drop room),
        cut, ← List.append_assoc, ← List.append_assoc] at all
      exact all
  · have noMembers : (membersOf s.log groupId).drop room = [] := by
      by_contra left
      exact more (.inl left)
    have noMemberships : (membershipsOf s.log groupId).drop
        (room - (membersOf s.log groupId).length) = [] := by
      by_contra left
      exact more (.inr left)
    have allMembers : (membersOf s.log groupId).take room = membersOf s.log groupId :=
      List.take_of_length_le (List.drop_eq_nil_iff.mp noMembers)
    have allMemberships : (membershipsOf s.log groupId).take
        (room - (membersOf s.log groupId).length) = membershipsOf s.log groupId :=
      List.take_of_length_le (List.drop_eq_nil_iff.mp noMemberships)
    refine ⟨[_], [membershipsOf s.log groupId], .last ran ?_, ?_, ?_, ?_⟩
    · rw [pageOf, cursorFor, decide_eq_false more]
      rfl
    · rw [List.flatten_cons, List.flatten_nil, List.append_nil]
    · intro window member
      have short := List.drop_eq_nil_iff.mp noMemberships
      rw [List.mem_singleton.mp member]
      omega
    · rw [List.flatMap_singleton, List.flatMap_singleton, pageOf, allMembers, allMemberships,
        List.append_assoc]

/-- A listing of a store between two Actions ends. Its pages ship the state of the Group and
nothing else: the row of the Group and each member once, and for every window of the memberships
the rows it names once and the relationships of its live entities once. A cursor minted for
another Group is refused. -/
theorem pages_of_store {s : Store} (consistent : Consistent s)
    (actors : ∀ row ∈ membersOf s.log groupId, row.actorId.isSome)
    (authorized : memberOf groupId actorId = true) (positive : 0 < limit) (small : limit ≤ maxLimit)
    (roundTrips : library.RoundTrips) :
    (∃ (pages : List (Page Token)) (windows : List (List Row)),
      Listed library memberOf groupId actorId limit s none pages ∧
      windows.flatten = membershipsOf s.log groupId ∧
      (∀ window ∈ windows, window.length ≤ limit.toNat) ∧
      (∀ row, row ∈ pages.flatMap Page.entities ↔ Belongs s.log groupId row) ∧
      ∀ id, ((pages.flatMap Page.entities).map Row.id).count id =
        (if id ∈ (groupRow s.log groupId).toList.map Row.id then 1 else 0) +
          (if id ∈ (membersOf s.log groupId).map Row.id then 1 else 0) +
          windows.countP (fun window => names window id && (liveRow s.log id).isSome) +
          windows.countP fun window => (liveRow s.log id).any (links s.log window)) ∧
    ∀ minted watermark key, minted ≠ groupId →
      ((list library memberOf groupId actorId
        (some (encodeCursor library minted watermark key)) (some limit)).run s).1 =
          .error .badCursor := by
  have named := consistent.filed.logged
  constructor
  · rcases listed_start consistent actors authorized positive small roundTrips with
      ⟨pages, windows, listed, flatten, lengths, ships⟩
    refine ⟨pages, windows, listed, flatten, lengths, fun row => ?_, fun id => ?_⟩
    · rw [ships.mem_iff, List.mem_append, List.mem_append, mem_windowRows named, flatten,
        mem_groupRow named, mem_membersOf, Belongs]
      constructor
      · rintro (⟨live, isGroup⟩ | ⟨logged, filed⟩ | ⟨live, windowed⟩)
        · exact ⟨live, .inl isGroup⟩
        · exact ⟨liveRow_of_filed named logged filed, .inr (.inl filed)⟩
        · exact ⟨live, .inr (.inr windowed)⟩
      · rintro ⟨live, isGroup | filed | windowed⟩
        · exact .inl ⟨live, isGroup⟩
        · exact .inr (.inl ⟨((liveRow_eq_some named).mp live).1, filed⟩)
        · exact .inr (.inr ⟨live, windowed⟩)
    · have groupOnce : ((groupRow s.log groupId).toList.map Row.id).Nodup := by
        cases groupRow s.log groupId with
        | none => exact List.nodup_nil
        | some row => exact List.nodup_singleton _
      have membersOnce : ((membersOf s.log groupId).map Row.id).Nodup := by
        refine (((Keyset.perm_ordered memberKey _).map Row.id).nodup_iff).mpr ?_
        exact (nodup_rowsOf named).sublist (List.filter_sublist.map Row.id)
      rw [(ships.map Row.id).count_eq, List.map_append, List.map_append, List.count_append,
        List.count_append, count_windowRows named, groupOnce.count, membersOnce.count]
      omega
  · intro minted watermark key foreign
    have refused : resolveCursor library (some (encodeCursor library minted watermark key)) groupId =
        throw .badCursor := by
      rw [resolveCursor, encodeCursor, roundTrips, Option.bind_some, decodeToken_foreign foreign]
    rw [list_eq authorized positive small, refused]
    rfl

def rowOf (id type : String) (groupId entityId : Option String) : Row where
  id := id
  type := type
  deleted := false
  sourceId := none
  actorId := none
  entityId := entityId
  groupId := groupId

def sharedRows : OrderedMap String Row where
  entries := [("g", rowOf "g" "group" none none),
    ("e1", rowOf "e1" "entityGroup" (some "g") (some "t1")),
    ("e2", rowOf "e2" "entityGroup" (some "g") (some "t1")), ("t1", rowOf "t1" "todo" none none)]
  nodup := by decide

def sharedStore : Store where
  entities := sharedRows
  log := sharedRows
  unreadable := []
  dirty := .empty
  committedWatermark := 7

/-- A library with the texts of two cursors; other terms stand for their texts. -/
def sharedLibrary : Library (String ⊕ Term) where
  encode term :=
    if term = payload "g" 7 (.members none none) then
      .inl "eyJncm91cF9pZCI6ImciLCJrZXkiOlswXSwidiI6MSwidyI6N30"
    else if term = payload "g" 7 (.memberships (some "e1")) then
      .inl "eyJncm91cF9pZCI6ImciLCJrZXkiOlsxLCJlMSJdLCJ2IjoxLCJ3Ijo3fQ"
    else .inr term
  decode
    | .inl text =>
        if text = "eyJncm91cF9pZCI6ImciLCJrZXkiOlswXSwidiI6MSwidyI6N30" then
          some (payload "g" 7 (.members none none))
        else if text = "eyJncm91cF9pZCI6ImciLCJrZXkiOlsxLCJlMSJdLCJ2IjoxLCJ3Ijo3fQ" then
          some (payload "g" 7 (.memberships (some "e1")))
        else none
    | .inr term => some term

theorem sharedLibrary_roundTrips : sharedLibrary.RoundTrips := by
  intro groupId watermark key
  generalize payload groupId watermark key = term
  by_cases first : term = payload "g" 7 (.members none none)
  · rw [first]
    rfl
  · by_cases second : term = payload "g" 7 (.memberships (some "e1"))
    · rw [second]
      rfl
    · change sharedLibrary.decode (if _ then _ else if _ then _ else .inr term) = some term
      rw [if_neg first, if_neg second]
      rfl

theorem consistent_sharedStore : Consistent sharedStore := by
  have named : Named sharedRows := by
    intro id row found
    have every : ∀ entry ∈ sharedRows.entries, entry.2.id = entry.1 := by decide
    exact every (id, row) ((sharedRows.get?_eq_some_iff id row).mp found)
  exact ⟨⟨rfl, rfl, named, named, fun absent => absent⟩, fun _ => .inl rfl⟩

theorem pages_of_sharedStore :
    ∃ (pages : List (Page (String ⊕ Term))) (windows : List (List Row)),
      Listed sharedLibrary (fun _ _ => true) "g" "a1" 1 sharedStore none pages ∧
      windows.flatten.map Row.id = ["e1", "e2"] ∧
      ∀ row, row ∈ pages.flatMap Page.entities ↔ Belongs sharedRows "g" row := by
  have actors : ∀ row ∈ membersOf sharedStore.log "g", row.actorId.isSome := by decide
  rcases (@pages_of_store _ sharedLibrary (fun _ _ => true) "g" "a1" 1 sharedStore
    consistent_sharedStore actors rfl (by decide) (by decide) sharedLibrary_roundTrips).1 with
    ⟨pages, windows, listed, flatten, _, belongs, _⟩
  refine ⟨pages, windows, listed, ?_, belongs⟩
  rw [flatten]
  decide

/-- A row is not shipped once: an entity that two windows name is on both of their pages. -/
theorem ships_shared_entity_twice :
    ¬ ∀ (s : Store) (pages : List (Page (String ⊕ Term))), Consistent s →
      Listed sharedLibrary (fun _ _ => true) "g" "a1" 1 s none pages →
        ((pages.flatMap Page.entities).map Row.id).Nodup := by
  intro once
  have nodup := once sharedStore _ consistent_sharedStore
    (.more rfl rfl (.more rfl rfl (.last rfl rfl)))
  revert nodup
  decide

end Ebb.Sync.GroupListing
