import Ebb.Access.ValidatedAction
import Ebb.Foundation.Bag

namespace Ebb.Access

/-! The `groupMember` tables: rows by actor, rows by id, and the ids of each
group's rows. -/

structure GroupMember where
  id : String
  groupId : Term
  actorId : Term
  permissions : Term
deriving DecidableEq

/-- The three tables always describe the same rows, each under its own id, with an
actor and a group, and with permissions that were read with `||`. -/
structure GroupCache where
  groupMembers : List (Term × GroupMember)
  groupMembersById : OrderedMap String GroupMember
  groupMembersByGroup : List (Term × String)
  named : ∀ {id row}, groupMembersById.get? id = some row →
    row.id = id ∧ row.actorId.truthy = true ∧ row.groupId.truthy = true
  settled : ∀ {id row}, groupMembersById.get? id = some row → row.permissions ≠ .bool false
  byActor : ∀ actorId row, (actorId, row) ∈ groupMembers ↔
    groupMembersById.get? row.id = some row ∧ row.actorId = actorId
  byGroup : ∀ groupId id, (groupId, id) ∈ groupMembersByGroup ↔
    ∃ row, groupMembersById.get? id = some row ∧ row.groupId = groupId

namespace GroupCache

def empty : GroupCache where
  groupMembers := []
  groupMembersById := .empty
  groupMembersByGroup := []
  named := nofun
  settled := nofun
  byActor := by simp
  byGroup := by simp

def getGroupMember (cache : GroupCache) (memberId : String) : Option GroupMember :=
  cache.groupMembersById.get? memberId

def groupMemberIds (cache : GroupCache) (groupId : Term) : List String :=
  Bag.lookup groupId cache.groupMembersByGroup

/-! ## Writes -/

def deleteFromPrimary (memberId : String) (actorId : Term)
    (table : List (Term × GroupMember)) : List (Term × GroupMember) :=
  table.filter fun entry => ¬ (entry.1 = actorId ∧ entry.2.id = memberId)

theorem mem_deleteFromPrimary (memberId : String) (actorId : Term)
    (table : List (Term × GroupMember)) (entry : Term × GroupMember) :
    entry ∈ deleteFromPrimary memberId actorId table ↔
      entry ∈ table ∧ ¬ (entry.1 = actorId ∧ entry.2.id = memberId) := by
  rw [deleteFromPrimary, List.mem_filter, decide_eq_true_eq]

/-- The by-id row a re-put replaces has an actor and a group of its own: both of
its index rows go before the new row lands. -/
def dropStale (cache : GroupCache) (entry : GroupMember) :
    List (Term × GroupMember) × List (Term × String) :=
  match cache.getGroupMember entry.id with
  | none => (deleteFromPrimary entry.id entry.actorId cache.groupMembers,
      cache.groupMembersByGroup)
  | some previous =>
      (deleteFromPrimary entry.id previous.actorId
        (deleteFromPrimary entry.id entry.actorId cache.groupMembers),
        Bag.deleteObject previous.groupId entry.id cache.groupMembersByGroup)

variable (cache : GroupCache)

theorem mem_dropStale_fst (entry : GroupMember) (actorId : Term) (row : GroupMember) :
    (actorId, row) ∈ (cache.dropStale entry).1 ↔
      (actorId, row) ∈ cache.groupMembers ∧ row.id ≠ entry.id := by
  have stored : (actorId, row) ∈ cache.groupMembers → row.id = entry.id →
      ∃ previous, cache.getGroupMember entry.id = some previous ∧
        previous.actorId = actorId := by
    intro member same
    have indexed := (cache.byActor actorId row).mp member
    exact ⟨row, same ▸ indexed.1, indexed.2⟩
  cases found : cache.getGroupMember entry.id with
  | none =>
      simp only [dropStale, found, mem_deleteFromPrimary]
      constructor
      · intro member
        exact ⟨member.1, fun same => by
          rcases stored member.1 same with ⟨_, impossible, _⟩
          rw [found] at impossible
          cases impossible⟩
      · exact fun member => ⟨member.1, fun both => member.2 both.2⟩
  | some previous =>
      simp only [dropStale, found, mem_deleteFromPrimary]
      constructor
      · intro member
        refine ⟨member.1.1, fun same => ?_⟩
        rcases stored member.1.1 same with ⟨other, equal, actor⟩
        rw [found] at equal
        cases equal
        exact member.2 ⟨actor.symm, same⟩
      · exact fun member =>
          ⟨⟨member.1, fun both => member.2 both.2⟩, fun both => member.2 both.2⟩

theorem mem_dropStale_snd (entry : GroupMember) (groupId : Term) (id : String) :
    (groupId, id) ∈ (cache.dropStale entry).2 ↔
      (groupId, id) ∈ cache.groupMembersByGroup ∧ id ≠ entry.id := by
  have stored : (groupId, id) ∈ cache.groupMembersByGroup → id = entry.id →
      ∃ previous, cache.getGroupMember entry.id = some previous ∧
        previous.groupId = groupId := by
    intro member same
    rcases (cache.byGroup groupId id).mp member with ⟨row, indexed, group⟩
    exact ⟨row, same ▸ indexed, group⟩
  cases found : cache.getGroupMember entry.id with
  | none =>
      simp only [dropStale, found]
      constructor
      · intro member
        exact ⟨member, fun same => by
          rcases stored member same with ⟨_, impossible, _⟩
          rw [found] at impossible
          cases impossible⟩
      · exact fun member => member.1
  | some previous =>
      simp only [dropStale, found, Bag.mem_deleteObject]
      constructor
      · intro member
        refine ⟨member.1, fun same => ?_⟩
        rcases stored member.1 same with ⟨other, equal, group⟩
        rw [found] at equal
        cases equal
        exact member.2 (by rw [group, same])
      · exact fun member => ⟨member.1, fun same => member.2 (Prod.mk.inj same).2⟩

/-- `put_group_member/2`: a row without an actor or a group is refused and the
tables stay as they are. -/
def putGroupMember (cache : GroupCache) (member : GroupMember) : GroupCache :=
  if ends : member.actorId.truthy = true ∧ member.groupId.truthy = true then
    let entry := { member with permissions := member.permissions.or .null }
    { groupMembers := Bag.insert entry.actorId entry (cache.dropStale entry).1
      groupMembersById := cache.groupMembersById.set entry.id entry
      groupMembersByGroup := Bag.insert entry.groupId entry.id (cache.dropStale entry).2
      named := by
        intro id row stored
        rw [OrderedMap.get?_set] at stored
        split at stored
        · next same =>
            cases stored
            exact ⟨same.symm, ends⟩
        · exact cache.named stored
      settled := by
        intro id row stored
        rw [OrderedMap.get?_set] at stored
        split at stored
        · cases stored
          exact Term.or_null_ne_false member.permissions
        · exact cache.settled stored
      byActor := by
        intro actorId row
        rw [Bag.mem_insert, mem_dropStale_fst, cache.byActor, OrderedMap.get?_set]
        by_cases same : row.id = entry.id
        · rw [if_pos same]
          constructor
          · intro either
            rcases either with equal | member
            · cases equal
              exact ⟨rfl, rfl⟩
            · exact absurd same member.2
          · intro both
            cases both.1
            exact .inl (by rw [← both.2])
        · rw [if_neg same]
          constructor
          · intro either
            rcases either with equal | member
            · cases equal
              exact absurd rfl same
            · exact member.1
          · exact fun both => .inr ⟨both, same⟩
      byGroup := by
        intro groupId id
        rw [Bag.mem_insert, mem_dropStale_snd, cache.byGroup, OrderedMap.get?_set]
        by_cases same : id = entry.id
        · rw [if_pos same]
          constructor
          · intro either
            rcases either with equal | member
            · cases equal
              exact ⟨entry, rfl, rfl⟩
            · exact absurd same member.2
          · intro found
            rcases found with ⟨row, equal, group⟩
            cases equal
            exact .inl (by rw [← group, same])
        · rw [if_neg same]
          constructor
          · intro either
            rcases either with equal | member
            · cases equal
              exact absurd rfl same
            · exact member.1
          · exact fun found => .inr ⟨found, same⟩ }
  else cache

/-- `delete_group_member/2`. -/
def deleteGroupMember (cache : GroupCache) (memberId : String) : GroupCache :=
  match found : cache.getGroupMember memberId with
  | none => cache
  | some row =>
      { groupMembers := deleteFromPrimary memberId row.actorId cache.groupMembers
        groupMembersById := cache.groupMembersById.erase memberId
        groupMembersByGroup := Bag.deleteObject row.groupId memberId cache.groupMembersByGroup
        named := by
          intro id other stored
          rw [OrderedMap.get?_erase] at stored
          split at stored
          · cases stored
          · exact cache.named stored
        settled := by
          intro id other stored
          rw [OrderedMap.get?_erase] at stored
          split at stored
          · cases stored
          · exact cache.settled stored
        byActor := by
          intro actorId other
          rw [mem_deleteFromPrimary, cache.byActor, OrderedMap.get?_erase]
          by_cases same : other.id = memberId
          · rw [if_pos same]
            constructor
            · intro kept
              have equal : row = other := by
                rw [same] at kept
                exact Option.some.inj (found.symm.trans kept.1.1)
              exact absurd ⟨by rw [equal, kept.1.2], same⟩ kept.2
            · exact fun both => nomatch both.1
          · rw [if_neg same]
            exact ⟨fun kept => kept.1, fun both => ⟨both, fun gone => same gone.2⟩⟩
        byGroup := by
          intro groupId id
          rw [Bag.mem_deleteObject, cache.byGroup, OrderedMap.get?_erase]
          by_cases same : id = memberId
          · rw [if_pos same]
            constructor
            · intro kept
              rcases kept with ⟨⟨other, stored, group⟩, different⟩
              rw [same] at stored
              cases found.symm.trans stored
              exact absurd (by rw [← group, same]) different
            · intro impossible
              rcases impossible with ⟨_, equal, _⟩
              cases equal
          · rw [if_neg same]
            exact ⟨fun kept => kept.1, fun both =>
              ⟨both, fun gone => same (Prod.mk.inj gone).2⟩⟩ }

theorem getGroupMember_put (member : GroupMember) (id : String) :
    (cache.putGroupMember member).getGroupMember id =
      if id = member.id ∧ member.actorId.truthy = true ∧ member.groupId.truthy = true then
        some { member with permissions := member.permissions.or .null }
      else cache.getGroupMember id := by
  rw [putGroupMember]
  split
  · next ends =>
      rw [getGroupMember, OrderedMap.get?_set]
      by_cases same : id = member.id
      · rw [if_pos same, if_pos ⟨same, ends⟩]
      · rw [if_neg same, if_neg (fun both => same both.1), getGroupMember]
  · next ends => rw [if_neg (fun both => ends both.2)]

theorem getGroupMember_delete (memberId id : String) :
    (cache.deleteGroupMember memberId).getGroupMember id =
      if id = memberId then none else cache.getGroupMember id := by
  rw [deleteGroupMember]
  split
  · next found =>
      split
      · next same => rw [same, found]
      · rfl
  · exact OrderedMap.get?_erase _ _ _

end GroupCache

end Ebb.Access
