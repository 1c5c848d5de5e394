import Ebb.Foundation.OrderedMap
import Ebb.Server.GroupActions

namespace Ebb.Server

/-! What the Committer writes for an Action: its record under the GSN, and one
row of the group index for each group of its scopes. -/

/-! ## Rows in key order -/

def putKey (key : List UInt8) : List (List UInt8) → List (List UInt8)
  | [] => [key]
  | head :: rest =>
      if head = key then head :: rest
      else if before key head then key :: head :: rest
      else head :: putKey key rest

theorem mem_putKey {key other : List UInt8} {keys : List (List UInt8)} :
    other ∈ putKey key keys ↔ other = key ∨ other ∈ keys := by
  induction keys with
  | nil => simp [putKey]
  | cons head rest induction =>
      rw [putKey]
      split
      · next equal => simp [equal]
      · split
        · simp
        · rw [List.mem_cons, induction, List.mem_cons]
          exact or_left_comm

theorem putKey_sorted {keys : List (List UInt8)}
    (sorted : keys.Pairwise fun left right => before left right = true) (key : List UInt8) :
    (putKey key keys).Pairwise fun left right => before left right = true := by
  induction keys with
  | nil => exact List.pairwise_singleton _ _
  | cons head rest induction =>
      have parts := List.pairwise_cons.mp sorted
      rw [putKey]
      split
      · exact sorted
      · next different =>
          split
          · next first =>
              apply List.pairwise_cons.mpr
              refine ⟨?_, sorted⟩
              intro other member
              rcases List.mem_cons.mp member with equal | later
              · exact equal ▸ first
              · exact before_trans first (parts.1 other later)
          · next notFirst =>
              apply List.pairwise_cons.mpr
              refine ⟨?_, induction parts.2⟩
              intro other member
              rcases mem_putKey.mp member with equal | later
              · cases ordered : before head key with
                | true => exact equal ▸ ordered
                | false =>
                    exact absurd (eq_of_not_before ordered (by simpa using notFirst)) different
              · exact parts.1 other later

/-- A prepared Action: every Update with the groups it was resolved to. -/
structure DurableAction (U : Type) where
  id : String
  actorId : String
  hlc : Nat
  scopedUpdates : List (U × List (List UInt8))

namespace DurableAction

variable {U : Type}

def updates (action : DurableAction U) : List U := action.scopedUpdates.map Prod.fst

def updateScopes (action : DurableAction U) : List (List (List UInt8)) :=
  action.scopedUpdates.map Prod.snd

/-- The union of the scopes, under which the Action is indexed. -/
def groups (action : DurableAction U) : List (List UInt8) :=
  action.updateScopes.flatten.eraseDups

theorem length_updateScopes (action : DurableAction U) :
    action.updateScopes.length = action.updates.length := by
  rw [updateScopes, updates, List.length_map, List.length_map]

theorem mem_groups {action : DurableAction U} {groupId : List UInt8} :
    groupId ∈ action.groups ↔ ∃ groupIds ∈ action.updateScopes, groupId ∈ groupIds := by
  rw [groups, List.mem_eraseDups, List.mem_flatten]

end DurableAction

/-- `ActionFormat.frame/2` of the payload and the scopes. -/
def DurableAction.frame {U : Type} (action : DurableAction U) : StoredAction U where
  id := action.id
  actorId := action.actorId
  hlc := action.hlc
  updates := action.updates
  updateScopes := some action.updateScopes

/-! ## The column families -/

namespace GroupStore

variable {U : Type}

def empty (watermark : Nat) : GroupStore U where
  actions := []
  groupActions := []
  sorted := List.Pairwise.nil
  watermark

theorem foldl_putKey_sorted {keys : List (List UInt8)}
    (sorted : keys.Pairwise fun left right => before left right = true)
    (groups : List (List UInt8)) (gsn : Nat) :
    (groups.foldl (fun keys groupId => putKey (RocksDB.encodeGroupActionKey groupId gsn) keys)
      keys).Pairwise fun left right => before left right = true := by
  induction groups generalizing keys with
  | nil => exact sorted
  | cons groupId rest induction => exact induction (putKey_sorted sorted _)

def put (store : GroupStore U) (entry : Nat × DurableAction U) : GroupStore U where
  actions := setEntry entry.1 entry.2.frame store.actions
  groupActions := entry.2.groups.foldl
    (fun keys groupId => putKey (RocksDB.encodeGroupActionKey groupId entry.1) keys)
    store.groupActions
  sorted := foldl_putKey_sorted store.sorted _ _
  watermark := store.watermark

theorem mem_foldl_putKey {key : List UInt8} {keys : List (List UInt8)} {gsn : Nat}
    (groups : List (List UInt8)) :
    key ∈ groups.foldl (fun keys groupId =>
        putKey (RocksDB.encodeGroupActionKey groupId gsn) keys) keys ↔
      (∃ groupId ∈ groups, key = RocksDB.encodeGroupActionKey groupId gsn) ∨ key ∈ keys := by
  induction groups generalizing keys with
  | nil => simp
  | cons groupId rest induction =>
      rw [List.foldl_cons, induction, mem_putKey, List.exists_mem_cons_iff]
      exact or_left_comm.trans or_assoc.symm

end GroupStore

/-- The committed Actions under their GSNs, which are claimed from 1 on. The largest
encodable GSN is never reached. -/
structure ActionHistory (U : Type) where
  entries : List (Nat × DurableAction U)
  nodup : (entries.map Prod.fst).Nodup
  positive : ∀ entry ∈ entries, 0 < entry.1
  reachable : ∀ entry ∈ entries, entry.1 < 256 ^ 8 - 1

namespace ActionHistory

variable {U : Type}

def store (history : ActionHistory U) (watermark : Nat) : GroupStore U :=
  history.entries.foldl GroupStore.put (GroupStore.empty watermark)

variable (history : ActionHistory U) (watermark : Nat)

theorem store_watermark : (history.store watermark).watermark = watermark := by
  have general : ∀ (entries : List (Nat × DurableAction U)) (store : GroupStore U),
      (entries.foldl GroupStore.put store).watermark = store.watermark := by
    intro entries
    induction entries with
    | nil => exact fun _ => rfl
    | cons entry rest induction => exact fun store => induction _
  exact general history.entries _

theorem action_unique {gsn : Nat} {action other : DurableAction U}
    (member : (gsn, action) ∈ history.entries) (otherMember : (gsn, other) ∈ history.entries) :
    action = other := by
  have found := (lookup_eq_some_iff_mem history.nodup gsn action).mpr member
  have otherFound := (lookup_eq_some_iff_mem history.nodup gsn other).mpr otherMember
  exact Option.some.inj (found.symm.trans otherFound)

theorem lookup_actions (gsn : Nat) (stored : StoredAction U) :
    (history.store watermark).actions.lookup gsn = some stored ↔
      ∃ action, (gsn, action) ∈ history.entries ∧ action.frame = stored := by
  have general : ∀ (entries : List (Nat × DurableAction U)) (store : GroupStore U),
      (entries.map Prod.fst).Nodup →
        ((entries.foldl GroupStore.put store).actions.lookup gsn = some stored ↔
          (∃ action, (gsn, action) ∈ entries ∧ action.frame = stored) ∨
            (gsn ∉ entries.map Prod.fst ∧ store.actions.lookup gsn = some stored)) := by
    intro entries
    induction entries with
    | nil => simp
    | cons entry rest induction =>
        intro store nodup
        rcases entry with ⟨head, action⟩
        have parts := List.nodup_cons.mp nodup
        rw [List.foldl_cons, induction _ parts.2]
        by_cases equal : gsn = head
        · subst equal
          have absent : ∀ other, (gsn, other) ∉ rest := fun other member =>
            parts.1 (List.mem_map.mpr ⟨_, member, rfl⟩)
          have missing : ¬ ∃ other, (gsn, other) ∈ rest := fun found =>
            found.elim absent
          simp [GroupStore.put, lookup_setEntry_self, absent]
        · simp [GroupStore.put, lookup_setEntry_of_ne equal, equal]
  rw [store, general history.entries _ history.nodup]
  simp [GroupStore.empty]

theorem mem_groupActions {groupId : List UInt8} {gsn : Nat} (fits : gsn < 256 ^ 8) :
    RocksDB.encodeGroupActionKey groupId gsn ∈ (history.store watermark).groupActions ↔
      ∃ action, (gsn, action) ∈ history.entries ∧ groupId ∈ action.groups := by
  have general : ∀ (entries : List (Nat × DurableAction U)) (store : GroupStore U),
      (∀ entry ∈ entries, entry.1 < 256 ^ 8) →
        (RocksDB.encodeGroupActionKey groupId gsn ∈
            (entries.foldl GroupStore.put store).groupActions ↔
          (∃ action, (gsn, action) ∈ entries ∧ groupId ∈ action.groups) ∨
            RocksDB.encodeGroupActionKey groupId gsn ∈ store.groupActions) := by
    intro entries
    induction entries with
    | nil => simp
    | cons entry rest induction =>
        intro store encodable
        rcases entry with ⟨head, action⟩
        have headFits : head < 256 ^ 8 := encodable _ List.mem_cons_self
        have here : (∃ other ∈ action.groups, RocksDB.encodeGroupActionKey groupId gsn =
            RocksDB.encodeGroupActionKey other head) ↔ gsn = head ∧ groupId ∈ action.groups := by
          constructor
          · rintro ⟨other, member, equal⟩
            have decoded := RocksDB.decode_encode groupId gsn
            rw [equal, RocksDB.decode_encode, Nat.mod_eq_of_lt fits,
              Nat.mod_eq_of_lt headFits] at decoded
            cases decoded
            exact ⟨rfl, member⟩
          · rintro ⟨rfl, member⟩
            exact ⟨groupId, member, rfl⟩
        rw [List.foldl_cons, induction _ fun entry member =>
          encodable entry (List.mem_cons_of_mem _ member), GroupStore.put,
          GroupStore.mem_foldl_putKey, here]
        constructor
        · rintro (⟨other, member, filed⟩ | ⟨rfl, filed⟩ | earlier)
          · exact .inl ⟨other, List.mem_cons_of_mem _ member, filed⟩
          · exact .inl ⟨action, List.mem_cons_self, filed⟩
          · exact .inr earlier
        · rintro (⟨other, member, filed⟩ | earlier)
          · rcases List.mem_cons.mp member with equal | later
            · cases equal
              exact .inr (.inl ⟨rfl, filed⟩)
            · exact .inl ⟨other, later, filed⟩
          · exact .inr (.inr earlier)
  rw [store, general history.entries _ fun entry member => Nat.lt_of_lt_of_le
    (history.reachable entry member) (by decide)]
  simp [GroupStore.empty]

end ActionHistory

end Ebb.Server
