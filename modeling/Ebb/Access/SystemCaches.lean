import Ebb.Access.GroupCache

namespace Ebb.Access

/-! The other tables that authorization and scopes read: `entityGroup` memberships,
relationship rows and the types of entity ids. -/

structure EntityGroup where
  id : String
  entityId : Term
  groupId : Term
deriving DecidableEq

structure Relationship where
  id : String
  sourceId : Term
  targetId : Term
  type : Term
  field : Term
deriving DecidableEq

/-! ## Memberships -/

/-- The tables by entity and by id describe the same rows, each under its own id and
naming an entity and a group. The table by group holds the pair of a group and an entity
once however many rows file it, and loses it with the first of them that goes. -/
structure EntityGroupCache where
  entityGroups : List (Term × EntityGroup)
  entityGroupsById : OrderedMap String EntityGroup
  entityGroupsByGroup : List (Term × Term)
  named : ∀ {id row}, entityGroupsById.get? id = some row →
    row.id = id ∧ row.entityId.truthy = true ∧ row.groupId.truthy = true
  byEntity : ∀ entityId row, (entityId, row) ∈ entityGroups ↔
    entityGroupsById.get? row.id = some row ∧ row.entityId = entityId

namespace EntityGroupCache

def empty : EntityGroupCache where
  entityGroups := []
  entityGroupsById := .empty
  entityGroupsByGroup := []
  named := nofun
  byEntity := by simp

def getEntityGroup (cache : EntityGroupCache) (entryId : String) : Option EntityGroup :=
  cache.entityGroupsById.get? entryId

def entityGroupEntries (cache : EntityGroupCache) (entityId : Term) : List EntityGroup :=
  Bag.lookup entityId cache.entityGroups

variable (cache : EntityGroupCache)

theorem mem_entityGroupEntries (entityId : Term) (row : EntityGroup) :
    row ∈ cache.entityGroupEntries entityId ↔
      cache.getEntityGroup row.id = some row ∧ row.entityId = entityId := by
  rw [entityGroupEntries, Bag.mem_lookup, cache.byEntity, getEntityGroup]

/-- The replacement is inserted before the previous object goes, so that no
reader sees the entity without a membership. -/
def replaceObject (cache : EntityGroupCache) (entry : EntityGroup) :
    List (Term × EntityGroup) :=
  let inserted := Bag.insert entry.entityId entry cache.entityGroups
  match cache.getEntityGroup entry.id with
  | none => inserted
  | some previous =>
      if previous = entry then inserted
      else Bag.deleteObject previous.entityId previous inserted

def replacePair (cache : EntityGroupCache) (entry : EntityGroup) : List (Term × Term) :=
  let inserted := Bag.insert entry.groupId entry.entityId cache.entityGroupsByGroup
  match cache.getEntityGroup entry.id with
  | none => inserted
  | some previous =>
      if previous = entry then inserted
      else Bag.deleteObject previous.groupId previous.entityId inserted

theorem mem_replaceObject (entry : EntityGroup) (entityId : Term) (row : EntityGroup) :
    (entityId, row) ∈ cache.replaceObject entry ↔
      (entityId, row) = (entry.entityId, entry) ∨
        ((entityId, row) ∈ cache.entityGroups ∧ row.id ≠ entry.id) := by
  have stored : (entityId, row) ∈ cache.entityGroups → row.id = entry.id →
      cache.getEntityGroup entry.id = some row ∧ row.entityId = entityId := by
    intro member same
    have indexed := (cache.byEntity entityId row).mp member
    exact ⟨same ▸ indexed.1, indexed.2⟩
  cases found : cache.getEntityGroup entry.id with
  | none =>
      simp only [replaceObject, found, Bag.mem_insert]
      apply or_congr_right
      constructor
      · intro member
        exact ⟨member, fun same => by
          rw [found] at stored
          cases (stored member same).1⟩
      · exact fun both => both.1
  | some previous =>
      simp only [replaceObject, found]
      have replaced : (entityId, row) ∈ cache.entityGroups → row.id = entry.id →
          (entityId, row) = (previous.entityId, previous) := by
        intro member same
        have indexed := stored member same
        rw [found] at indexed
        cases indexed.1
        rw [indexed.2]
      split
      · next equal =>
          rw [Bag.mem_insert]
          constructor
          · intro either
            rcases either with new | member
            · exact .inl new
            · by_cases same : row.id = entry.id
              · exact .inl (equal ▸ replaced member same)
              · exact .inr ⟨member, same⟩
          · exact fun either => either.imp_right fun both => both.1
      · next different =>
          rw [Bag.mem_deleteObject, Bag.mem_insert]
          have sameId := (cache.named found).1
          constructor
          · intro both
            rcases both.1 with new | member
            · exact .inl new
            · exact .inr ⟨member, fun same => both.2 (replaced member same)⟩
          · intro either
            rcases either with new | both
            · exact ⟨.inl new, fun old => different (by
                rw [new] at old
                exact (Prod.mk.inj old).2.symm)⟩
            · exact ⟨.inr both.1, fun old => both.2 ((Prod.mk.inj old).2 ▸ sameId)⟩

/-- `put_entity_group/2`: a row without an entity or a group is refused. -/
def putEntityGroup (cache : EntityGroupCache) (entry : EntityGroup) : EntityGroupCache :=
  if ends : entry.entityId.truthy = true ∧ entry.groupId.truthy = true then
    { entityGroups := cache.replaceObject entry
      entityGroupsById := cache.entityGroupsById.set entry.id entry
      entityGroupsByGroup := cache.replacePair entry
      named := by
        intro id row stored
        rw [OrderedMap.get?_set] at stored
        split at stored
        · next same =>
            cases stored
            exact ⟨same.symm, ends⟩
        · exact cache.named stored
      byEntity := by
        intro entityId row
        rw [mem_replaceObject, cache.byEntity, OrderedMap.get?_set]
        by_cases same : row.id = entry.id
        · rw [if_pos same]
          constructor
          · intro either
            rcases either with equal | member
            · cases equal
              exact ⟨rfl, rfl⟩
            · exact absurd same member.2
          · intro both
            cases both.1
            exact .inl (by rw [← both.2])
        · rw [if_neg same]
          constructor
          · intro either
            rcases either with equal | member
            · cases equal
              exact absurd rfl same
            · exact member.1
          · exact fun both => .inr ⟨both, same⟩ }
  else cache

/-- `delete_entity_group/2`. -/
def deleteEntityGroup (cache : EntityGroupCache) (entryId : String) : EntityGroupCache :=
  match found : cache.getEntityGroup entryId with
  | none => cache
  | some row =>
      { entityGroups := Bag.deleteObject row.entityId row cache.entityGroups
        entityGroupsById := cache.entityGroupsById.erase entryId
        entityGroupsByGroup :=
          Bag.deleteObject row.groupId row.entityId cache.entityGroupsByGroup
        named := by
          intro id other stored
          rw [OrderedMap.get?_erase] at stored
          split at stored
          · cases stored
          · exact cache.named stored
        byEntity := by
          intro entityId other
          rw [Bag.mem_deleteObject, cache.byEntity, OrderedMap.get?_erase]
          have sameId := (cache.named found).1
          by_cases same : other.id = entryId
          · rw [if_pos same]
            constructor
            · intro kept
              rw [same] at kept
              cases found.symm.trans kept.1.1
              exact absurd (by rw [kept.1.2]) kept.2
            · exact fun both => nomatch both.1
          · rw [if_neg same]
            exact ⟨fun kept => kept.1, fun both =>
              ⟨both, fun gone => same ((Prod.mk.inj gone).2 ▸ sameId)⟩⟩ }

theorem getEntityGroup_put (entry : EntityGroup) (id : String) :
    (cache.putEntityGroup entry).getEntityGroup id =
      if id = entry.id ∧ entry.entityId.truthy = true ∧ entry.groupId.truthy = true then
        some entry
      else cache.getEntityGroup id := by
  rw [putEntityGroup]
  split
  · next ends =>
      rw [getEntityGroup, OrderedMap.get?_set]
      by_cases same : id = entry.id
      · rw [if_pos same, if_pos ⟨same, ends⟩]
      · rw [if_neg same, if_neg (fun both => same both.1), getEntityGroup]
  · next ends => rw [if_neg (fun both => ends both.2)]

theorem getEntityGroup_delete (entryId id : String) :
    (cache.deleteEntityGroup entryId).getEntityGroup id =
      if id = entryId then none else cache.getEntityGroup id := by
  rw [deleteEntityGroup]
  split
  · next found =>
      split
      · next same => rw [same, found]
      · rfl
  · exact OrderedMap.get?_erase _ _ _

end EntityGroupCache

/-! ## Relationships -/

/-- The tables by source and by id describe the same rows, each under its own id and
naming a source and a target. -/
structure RelationshipCache where
  relationships : List (Term × Relationship)
  relationshipsById : OrderedMap String Relationship
  named : ∀ {id row}, relationshipsById.get? id = some row →
    row.id = id ∧ row.sourceId.truthy = true ∧ row.targetId.truthy = true
  bySource : ∀ sourceId row, (sourceId, row) ∈ relationships ↔
    relationshipsById.get? row.id = some row ∧ row.sourceId = sourceId

namespace RelationshipCache

def empty : RelationshipCache where
  relationships := []
  relationshipsById := .empty
  named := nofun
  bySource := by simp

def getRelationship (cache : RelationshipCache) (relId : String) : Option Relationship :=
  cache.relationshipsById.get? relId

def deleteRelationship (cache : RelationshipCache) (relId : String) : RelationshipCache :=
  match found : cache.getRelationship relId with
  | none => cache
  | some row =>
      { relationships := Bag.deleteObject row.sourceId row cache.relationships
        relationshipsById := cache.relationshipsById.erase relId
        named := by
          intro id other stored
          rw [OrderedMap.get?_erase] at stored
          split at stored
          · cases stored
          · exact cache.named stored
        bySource := by
          intro sourceId other
          rw [Bag.mem_deleteObject, cache.bySource, OrderedMap.get?_erase]
          have sameId := (cache.named found).1
          by_cases same : other.id = relId
          · rw [if_pos same]
            constructor
            · intro kept
              rw [same] at kept
              cases found.symm.trans kept.1.1
              exact absurd (by rw [kept.1.2]) kept.2
            · exact fun both => nomatch both.1
          · rw [if_neg same]
            exact ⟨fun kept => kept.1, fun both =>
              ⟨both, fun gone => same ((Prod.mk.inj gone).2 ▸ sameId)⟩⟩ }

theorem getRelationship_delete (cache : RelationshipCache) (relId id : String) :
    (cache.deleteRelationship relId).getRelationship id =
      if id = relId then none else cache.getRelationship id := by
  rw [deleteRelationship]
  split
  · next found =>
      split
      · next same => rw [same, found]
      · rfl
  · exact OrderedMap.get?_erase _ _ _

/-- `put_relationship/2`, which reads every field with `||` and deletes the row it
replaces first: a row without a source or a target is refused. -/
def putRelationship (cache : RelationshipCache) (rel : Relationship) : RelationshipCache :=
  if ends : rel.sourceId.truthy = true ∧ rel.targetId.truthy = true then
    let entry := { rel with type := rel.type.or .null, field := rel.field.or .null }
    let deleted := cache.deleteRelationship rel.id
    { relationships := Bag.insert entry.sourceId entry deleted.relationships
      relationshipsById := deleted.relationshipsById.set entry.id entry
      named := by
        intro id row stored
        rw [OrderedMap.get?_set] at stored
        split at stored
        · next same =>
            cases stored
            exact ⟨same.symm, ends⟩
        · exact deleted.named stored
      bySource := by
        intro sourceId row
        have gone : deleted.relationshipsById.get? entry.id = none := by
          have here := cache.getRelationship_delete rel.id rel.id
          rwa [if_pos rfl] at here
        rw [Bag.mem_insert, deleted.bySource, OrderedMap.get?_set]
        by_cases same : row.id = entry.id
        · rw [if_pos same, same, gone]
          constructor
          · intro either
            rcases either with equal | member
            · cases equal
              exact ⟨rfl, rfl⟩
            · cases member.1
          · intro both
            cases both.1
            exact .inl (by rw [← both.2])
        · rw [if_neg same]
          constructor
          · intro either
            rcases either with equal | member
            · cases equal
              exact absurd rfl same
            · exact member
          · exact .inr }
  else cache

theorem getRelationship_put (cache : RelationshipCache) (rel : Relationship) (id : String) :
    (cache.putRelationship rel).getRelationship id =
      if id = rel.id ∧ rel.sourceId.truthy = true ∧ rel.targetId.truthy = true then
        some { rel with type := rel.type.or .null, field := rel.field.or .null }
      else cache.getRelationship id := by
  rw [putRelationship]
  split
  · next ends =>
      dsimp only
      rw [getRelationship, OrderedMap.get?_set]
      by_cases same : id = rel.id
      · rw [if_pos same, if_pos ⟨same, ends⟩]
      · have kept := cache.getRelationship_delete rel.id id
        rw [if_neg same] at kept
        rw [if_neg same, if_neg (fun both => same both.1)]
        exact kept
  · next ends => rw [if_neg (fun both => ends both.2)]

end RelationshipCache

structure SystemCaches where
  groups : GroupCache
  entityGroups : EntityGroupCache
  relationships : RelationshipCache
  entityTypes : OrderedMap String String

def SystemCaches.empty : SystemCaches where
  groups := .empty
  entityGroups := .empty
  relationships := .empty
  entityTypes := .empty

end Ebb.Access
