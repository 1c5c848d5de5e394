import Ebb.Foundation.StableSort
import Ebb.Storage.Materialize

namespace Ebb.Storage

/-! The client's Action log, as `packages/storage/src/memory/action-log.memory.ts`
keeps it: one record for each Action id, its Updates merged over deliveries. -/

/-- Union two records of one Action. A repeated Update id takes the later
copy. -/
def mergeActionUpdates (existing incoming : List (Update V)) : List (Update V) :=
  let known : List (String × Update V) :=
    existing.foldl (fun byId update => setEntry update.id update byId) []
  let byId := incoming.foldl (fun byId update => setEntry update.id update byId) known
  let order := incoming.foldl
    (fun order update => if update.id ∈ order then order else order ++ [update.id])
    (existing.map Update.id)
  order.filterMap fun id => byId.lookup id

/-- The Updates of `incoming` whose id is not already stored. -/
def addedUpdates (existing incoming : List (Update V)) : List (Update V) :=
  incoming.filter fun update => update.id ∉ existing.map Update.id

structure LoggedAction (V : Type) where
  action : Action V
  position : Nat
  added : List (Update V)

/-- The Actions of the log; the Action at index `i` has position `i + 1`. -/
abbrev ActionLog (V : Type) := List (Action V)

namespace ActionLog

/-- Append a delivery. A known Action keeps the header and the position its id
first claimed. -/
def append (log : ActionLog V) (action : Action V) : ActionLog V × LoggedAction V :=
  match log.find? fun stored => stored.id == action.id with
  | none => (log ++ [action], { action, position := log.length + 1, added := action.updates })
  | some existing =>
      let stored := { existing with
        updates := mergeActionUpdates existing.updates action.updates }
      (log.map fun candidate => if candidate.id = action.id then stored else candidate,
        { action := stored
          position := log.findIdx (fun stored => stored.id == action.id) + 1
          added := addedUpdates existing.updates action.updates })

def getForEntity (log : ActionLog V) (entityId : String) : List (Action V) :=
  sortBy Action.gsn (log.filter fun action => action.touches entityId)

end ActionLog

/-- The EntityStore's row: the replay of everything logged for the entity. -/
def materialize (log : ActionLog V) (entityId : String) : Option (Entity V) :=
  replay (log.getForEntity entityId) entityId

/-! ## Merging redelivered Updates -/

theorem order_eq_append {incoming : List (Update V)} (nodup : (incoming.map Update.id).Nodup)
    (existing : List String) :
    incoming.foldl
        (fun order update => if update.id ∈ order then order else order ++ [update.id])
        existing =
      existing ++ (incoming.filter fun update => update.id ∉ existing).map Update.id := by
  induction incoming generalizing existing with
  | nil => simp
  | cons update rest induction =>
      have parts := List.nodup_cons.mp nodup
      rw [List.foldl_cons, induction parts.2]
      by_cases known : update.id ∈ existing
      · simp [known]
      · have unchanged : (rest.filter fun other => other.id ∉ existing ++ [update.id]) =
            rest.filter fun other => other.id ∉ existing := by
          apply List.filter_congr
          intro other member
          have different : other.id ≠ update.id := fun equal =>
            parts.1 (List.mem_map.mpr ⟨other, member, equal⟩)
          simp [different]
        rw [if_neg known, unchanged, List.filter_cons_of_pos (by simp [known])]
        simp

theorem mergeActionUpdates_eq_append {existing incoming : List (Update V)}
    (existingNodup : (existing.map Update.id).Nodup)
    (incomingNodup : (incoming.map Update.id).Nodup)
    (genuine : ∀ stored ∈ existing, ∀ copy ∈ incoming, copy.id = stored.id → copy = stored) :
    mergeActionUpdates existing incoming = existing ++ addedUpdates existing incoming := by
  have readBack : ∀ update ∈ existing ++ addedUpdates existing incoming,
      (incoming.foldl (fun byId update => setEntry update.id update byId)
        (existing.foldl (fun byId update => setEntry update.id update byId) [])).lookup
          update.id = some update := by
    intro update member
    have written : ((incoming.foldl (fun byId update => setEntry update.id update byId)
        (existing.foldl (fun byId update => setEntry update.id update byId) [])).lookup
          update.id).isSome = true := by
      rw [lookup_foldl_setEntry_isSome Update.id fun update => update,
        lookup_foldl_setEntry_isSome Update.id fun update => update]
      rcases List.mem_append.mp member with stored | added
      · exact .inr (.inl ⟨update, stored, rfl⟩)
      · exact .inl ⟨update, (List.mem_filter.mp added).1, rfl⟩
    rcases Option.isSome_iff_exists.mp written with ⟨found, read⟩
    rw [read]
    congr 1
    rcases lookup_foldl_setEntry Update.id (fun update => update) read with
      ⟨copy, copyMember, sameId, rfl⟩ | earlier
    · rcases List.mem_append.mp member with stored | added
      · exact genuine update stored _ copyMember sameId
      · exact List.inj_on_of_nodup_map incomingNodup copyMember
          (List.mem_filter.mp added).1 sameId
    · rcases lookup_foldl_setEntry Update.id (fun update => update) earlier with
        ⟨stored, storedMember, sameId, rfl⟩ | absent
      · rcases List.mem_append.mp member with other | added
        · exact List.inj_on_of_nodup_map existingNodup storedMember other sameId
        · have fresh := of_decide_eq_true (List.mem_filter.mp added).2
          exact absurd (List.mem_map.mpr ⟨_, storedMember, sameId⟩) fresh
      · cases absent
  simp only [mergeActionUpdates]
  rw [order_eq_append incomingNodup, ← addedUpdates, ← List.map_append, List.filterMap_map]
  have kept := List.filterMap_congr (g := some) readBack
  simpa using kept

/-! ## Appending a delivery -/

namespace ActionLog

variable {log : ActionLog V} {action : Action V}

theorem append_of_new (new : (log.find? fun stored => stored.id == action.id) = none) :
    log.append action =
      (log ++ [action], { action, position := log.length + 1, added := action.updates }) := by
  rw [append, new]

theorem append_of_split {before after : ActionLog V} {existing : Action V}
    (sameId : existing.id = action.id)
    (others : ∀ other ∈ before ++ after, other.id ≠ action.id) :
    append (before ++ existing :: after) action =
      (before ++ { existing with
          updates := mergeActionUpdates existing.updates action.updates } :: after,
        { action := { existing with
            updates := mergeActionUpdates existing.updates action.updates }
          position := before.length + 1
          added := addedUpdates existing.updates action.updates }) := by
  have earlier : ∀ other ∈ before, (other.id == action.id) = false := fun other member =>
    beq_eq_false_iff_ne.mpr (others other (List.mem_append_left _ member))
  have found : (before ++ existing :: after).find? (fun stored => stored.id == action.id) =
      some existing := by
    rw [List.find?_eq_some_iff_append]
    exact ⟨beq_iff_eq.mpr sameId, before, after, rfl, fun other member => by
      rw [earlier other member]
      rfl⟩
  have index : (before ++ existing :: after).findIdx (fun stored => stored.id == action.id) =
      before.length := by
    rw [List.findIdx_append, List.findIdx_eq_length_of_false earlier, if_neg (Nat.lt_irrefl _),
      List.findIdx_cons, beq_iff_eq.mpr sameId]
    exact Nat.zero_add _
  have kept : ∀ (stretch : ActionLog V) (replaced : Action V),
      (∀ other ∈ stretch, other.id ≠ action.id) →
        (stretch.map fun candidate => if candidate.id = action.id then replaced else candidate) =
          stretch := by
    intro stretch replaced unlike
    conv_rhs => rw [← List.map_id stretch]
    apply List.map_congr_left
    intro other otherMember
    exact if_neg (unlike other otherMember)
  rw [append, found, index]
  dsimp only
  rw [List.map_append, List.map_cons, if_pos sameId,
    kept before _ fun other earlier => others other (List.mem_append_left _ earlier),
    kept after _ fun other later => others other (List.mem_append_right _ later)]

theorem split_of_known (ids : (log.map Action.id).Nodup) {existing : Action V}
    (known : (log.find? fun stored => stored.id == action.id) = some existing) :
    ∃ before after, log = before ++ existing :: after ∧ existing.id = action.id ∧
      ∀ other ∈ before ++ after, other.id ≠ action.id := by
  rcases List.find?_eq_some_iff_append.mp known with ⟨found, before, after, split, unlike⟩
  have sameId : existing.id = action.id := beq_iff_eq.mp found
  refine ⟨before, after, split, sameId, fun other otherMember => ?_⟩
  rw [split, List.map_append, List.map_cons, List.nodup_append, List.nodup_cons] at ids
  rcases List.mem_append.mp otherMember with earlier | later
  · simpa using unlike other earlier
  · intro same
    apply ids.2.1.1
    rw [sameId, ← same]
    exact List.mem_map_of_mem later

end ActionLog

end Ebb.Storage
