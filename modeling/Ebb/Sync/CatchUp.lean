import Ebb.Server.GroupActions

namespace Ebb.Sync.CatchUp

open Ebb.Server RocksDB

/-! Catch-up reads of one group, page by page along the group index. -/

variable {U : Type}

def maxGsn : Nat := 0xFFFFFFFFFFFFFFFF

/-! ## One page -/

structure Page (U : Type) where
  actions : List (LogAction U)
  nextOffset : Option Nat
  upToDate : Bool

inductive CatchUpError where
  | notMember
deriving DecidableEq

def ownRow (groupId key : List UInt8) : Bool :=
  match decodeGroupActionKey key with
  | some (rowGroup, _) => rowGroup == groupId
  | none => false

def entryGsn (key : List UInt8) : Nat :=
  match decodeGroupActionKey key with
  | some (_, gsn) => gsn
  | none => 0

/-- The frontier's next GSN, exclusive. A frontier of 0 is no usable bound. -/
def upperBoundGsn (watermark : Nat) : Nat :=
  if watermark = 0 then maxGsn else min (watermark + 1) maxGsn

def scopeAction (groupId : List UInt8) (action : LogAction U) : Option (LogAction U) :=
  match ActionScope.updatesForGroup action groupId with
  | [] => none
  | updates => some { action with updates }

def fetchActionsByGsn (store : GroupStore U) (gsns : List Nat) : List (LogAction U) :=
  gsns.filterMap fun gsn => (store.actions.lookup gsn).map fun stored =>
    ActionFormat.decode stored gsn

def scanRows (store : GroupStore U) (groupId : List UInt8) (offset : Nat) : List (List UInt8) :=
  rangeIterator store.groupActions (encodeGroupActionKey groupId (offset + 1))
    (encodeGroupActionKey groupId (upperBoundGsn store.watermark))

def performCatchUp (store : GroupStore U) (groupId : List UInt8) (offset : Nat) (limit : Int) :
    Page U :=
  let pageSize := (max limit 1).toNat
  let entries := ((scanRows store groupId offset).takeWhile (ownRow groupId)).take pageSize
  let gsns := entries.map entryGsn
  let actions := (fetchActionsByGsn store gsns).filterMap (scopeAction groupId)
  if entries.length < pageSize then { actions, nextOffset := none, upToDate := true }
  else { actions, nextOffset := gsns.getLast?, upToDate := false }

def catchUpGroup (isMember : Bool) (store : GroupStore U) (groupId : List UInt8) (offset : Nat)
    (limit : Int) : Except CatchUpError (Page U) :=
  if isMember then .ok (performCatchUp store groupId offset limit) else .error .notMember

def followOffsets (request : Nat → Except CatchUpError (Page U)) :
    Nat → Nat → Option (List (Page U))
  | 0, _ => none
  | fuel + 1, offset =>
      match request offset with
      | .error _ => none
      | .ok page =>
          if page.upToDate then some [page]
          else page.nextOffset.bind fun next => (followOffsets request fuel next).map (page :: ·)

variable {groupId key : List UInt8} {gsn : Nat} {store : GroupStore U} {offset last : Nat}

/-! ## The group's own rows -/

theorem ownRow_iff :
    ownRow groupId key = true ↔
      ∃ gsn, gsn < 256 ^ 8 ∧ key = encodeGroupActionKey groupId gsn := by
  rw [ownRow]
  constructor
  · intro own
    split at own
    · next rowGroup gsn decoded =>
        have parts := encode_decode decoded
        rw [eq_of_beq own] at parts
        exact ⟨gsn, parts.2, parts.1⟩
    · cases own
  · rintro ⟨gsn, _, rfl⟩
    rw [decode_encode]
    exact beq_self_eq_true groupId

theorem entryGsn_encode (groupId : List UInt8) (fits : gsn < 256 ^ 8) :
    entryGsn (encodeGroupActionKey groupId gsn) = gsn := by
  rw [entryGsn, decode_encode, Nat.mod_eq_of_lt fits]

/-- The GSNs the index lists for a group, in the order of their keys. -/
def groupGsns (store : GroupStore U) (groupId : List UInt8) : List Nat :=
  (store.groupActions.filter (ownRow groupId)).map entryGsn

theorem mem_groupGsns :
    gsn ∈ groupGsns store groupId ↔
      gsn < 256 ^ 8 ∧ encodeGroupActionKey groupId gsn ∈ store.groupActions := by
  rw [groupGsns, List.mem_map]
  constructor
  · rintro ⟨key, member, rfl⟩
    rw [List.mem_filter, ownRow_iff] at member
    rcases member with ⟨member, gsn, fits, rfl⟩
    rw [entryGsn_encode groupId fits]
    exact ⟨fits, member⟩
  · rintro ⟨fits, member⟩
    refine ⟨_, List.mem_filter.mpr ⟨member, ownRow_iff.mpr ⟨gsn, fits, rfl⟩⟩, ?_⟩
    exact entryGsn_encode groupId fits

theorem groupGsns_ascending (store : GroupStore U) (groupId : List UInt8) :
    (groupGsns store groupId).Pairwise fun earlier later => earlier < later := by
  rw [groupGsns, List.pairwise_map]
  apply (store.sorted.filter _).imp_of_mem
  intro left right leftIn rightIn ordered
  rcases ownRow_iff.mp (List.mem_filter.mp leftIn).2 with ⟨leftGsn, leftFits, rfl⟩
  rcases ownRow_iff.mp (List.mem_filter.mp rightIn).2 with ⟨rightGsn, rightFits, rfl⟩
  rw [before_encode leftFits rightFits, decide_eq_true_eq] at ordered
  rw [entryGsn_encode groupId leftFits, entryGsn_encode groupId rightFits]
  exact ordered

/-- The GSNs of the group above an offset and below the bound of the scan. -/
def gsnsAbove (store : GroupStore U) (groupId : List UInt8) (offset : Nat) : List Nat :=
  (groupGsns store groupId).filter fun gsn =>
    decide (offset < gsn) && decide (gsn < upperBoundGsn store.watermark)

theorem upperBoundGsn_le (watermark : Nat) : upperBoundGsn watermark ≤ maxGsn := by
  rw [upperBoundGsn]
  split
  · exact Nat.le_refl _
  · exact Nat.min_le_right _ _

theorem maxGsn_lt : maxGsn < 256 ^ 8 := by decide

theorem own_scanRows (store : GroupStore U) (groupId : List UInt8) (fits : offset + 1 < 256 ^ 8) :
    ((scanRows store groupId offset).filter (ownRow groupId)).map entryGsn =
      gsnsAbove store groupId offset := by
  have bound : upperBoundGsn store.watermark < 256 ^ 8 :=
    Nat.lt_of_le_of_lt (upperBoundGsn_le _) maxGsn_lt
  have range : ∀ key, ownRow groupId key = true →
      (!before key (encodeGroupActionKey groupId (offset + 1)) &&
        before key (encodeGroupActionKey groupId (upperBoundGsn store.watermark))) =
      (decide (offset < entryGsn key) && decide (entryGsn key < upperBoundGsn store.watermark)) := by
    intro key own
    rcases ownRow_iff.mp own with ⟨gsn, gsnFits, rfl⟩
    rw [before_encode gsnFits fits, before_encode gsnFits bound, entryGsn_encode groupId gsnFits,
      ← decide_not]
    congr 1
    rw [decide_eq_decide]
    omega
  rw [scanRows, rangeIterator, gsnsAbove, groupGsns, List.filter_map, List.filter_filter,
    List.filter_filter]
  congr 1
  apply List.filter_congr
  intro key _
  cases own : ownRow groupId key with
  | false => simp
  | true => simp [range key own]

/-- No row of another group stands before an own row of the scan. -/
def OwnRowsFirst (store : GroupStore U) (groupId : List UInt8) (offset : Nat) : Prop :=
  ∀ own ∈ scanRows store groupId offset, ∀ foreign ∈ scanRows store groupId offset,
    ownRow groupId own = true → ownRow groupId foreign = false → before foreign own = false

theorem takeWhile_scanRows (first : OwnRowsFirst store groupId offset) :
    (scanRows store groupId offset).takeWhile (ownRow groupId) =
      (scanRows store groupId offset).filter (ownRow groupId) := by
  apply takeWhile_eq_filter
  have ordered : (scanRows store groupId offset).Pairwise fun left right =>
      before left right = true := store.sorted.filter _
  apply ordered.imp_of_mem
  intro earlier later earlierIn laterIn inOrder own
  cases foreign : ownRow groupId earlier with
  | true => rfl
  | false =>
      rw [first later laterIn earlier earlierIn own foreign] at inOrder
      cases inOrder

/-! ## Pages in sequence -/

def deliver (store : GroupStore U) (groupId : List UInt8) (gsn : Nat) : Option (LogAction U) :=
  (store.actions.lookup gsn).bind fun stored => scopeAction groupId (ActionFormat.decode stored gsn)

theorem actions_eq_filterMap (store : GroupStore U) (groupId : List UInt8) (gsns : List Nat) :
    (fetchActionsByGsn store gsns).filterMap (scopeAction groupId) =
      gsns.filterMap (deliver store groupId) := by
  rw [fetchActionsByGsn, List.filterMap_filterMap]
  apply List.filterMap_congr
  intro gsn _
  rw [deliver]
  cases store.actions.lookup gsn <;> rfl

theorem pageSize_pos (limit : Int) : 0 < (max limit 1).toNat := by omega

theorem performCatchUp_eq (fits : offset + 1 < 256 ^ 8) (first : OwnRowsFirst store groupId offset)
    (limit : Int) :
    performCatchUp store groupId offset limit =
      let gsns := (gsnsAbove store groupId offset).take (max limit 1).toNat
      let actions := gsns.filterMap (deliver store groupId)
      if gsns.length < (max limit 1).toNat then { actions, nextOffset := none, upToDate := true }
      else { actions, nextOffset := gsns.getLast?, upToDate := false } := by
  have gsns : (((scanRows store groupId offset).takeWhile (ownRow groupId)).take
      (max limit 1).toNat).map entryGsn =
        (gsnsAbove store groupId offset).take (max limit 1).toNat := by
    rw [takeWhile_scanRows first, ← own_scanRows store groupId fits, List.map_take]
  have length : (((scanRows store groupId offset).takeWhile (ownRow groupId)).take
      (max limit 1).toNat).length =
        ((gsnsAbove store groupId offset).take (max limit 1).toNat).length := by
    rw [← gsns, List.length_map]
  simp only [performCatchUp, length, gsns, actions_eq_filterMap]

theorem mem_gsnsAbove :
    gsn ∈ gsnsAbove store groupId offset ↔
      gsn ∈ groupGsns store groupId ∧ offset < gsn ∧ gsn < upperBoundGsn store.watermark := by
  rw [gsnsAbove, List.mem_filter, Bool.and_eq_true, decide_eq_true_eq, decide_eq_true_eq]

theorem gsnsAbove_ascending (store : GroupStore U) (groupId : List UInt8) (offset : Nat) :
    (gsnsAbove store groupId offset).Pairwise fun earlier later => earlier < later :=
  (groupGsns_ascending store groupId).filter _

theorem gsnsAbove_last {size : Nat}
    (last_eq : ((gsnsAbove store groupId offset).take size).getLast? = some last) :
    offset < last ∧ last + 1 < 256 ^ 8 ∧
      gsnsAbove store groupId last = (gsnsAbove store groupId offset).drop size := by
  have member := List.mem_of_mem_take (List.mem_of_getLast? last_eq)
  have parts := mem_gsnsAbove.mp member
  have bound := Nat.lt_of_lt_of_le parts.2.2 (upperBoundGsn_le _)
  have ceiling : maxGsn + 1 = 256 ^ 8 := by decide
  refine ⟨parts.2.1, by omega, ?_⟩
  rw [← filter_gt_getLast_take (gsnsAbove_ascending store groupId offset) last_eq, gsnsAbove,
    gsnsAbove, List.filter_filter]
  apply List.filter_congr
  intro gsn _
  by_cases above : last < gsn
  · have aboveOffset : offset < gsn := Nat.lt_trans parts.2.1 above
    simp [above, aboveOffset]
  · simp [above]

theorem before_encode_succ (later : offset < last) (fits : last + 1 < 256 ^ 8)
    (notBefore : before key (encodeGroupActionKey groupId (last + 1)) = false) :
    before key (encodeGroupActionKey groupId (offset + 1)) = false := by
  cases earlier : before key (encodeGroupActionKey groupId (offset + 1)) with
  | false => rfl
  | true =>
      have ordered : before (encodeGroupActionKey groupId (offset + 1))
          (encodeGroupActionKey groupId (last + 1)) = true := by
        rw [before_encode (by omega) fits, decide_eq_true_eq]
        omega
      rw [before_trans earlier ordered] at notBefore
      cases notBefore

theorem scanRows_later (later : offset < last) (fits : last + 1 < 256 ^ 8)
    (member : key ∈ scanRows store groupId last) : key ∈ scanRows store groupId offset := by
  rw [scanRows, rangeIterator, List.mem_filter, Bool.and_eq_true, Bool.not_eq_true'] at member ⊢
  exact ⟨member.1, before_encode_succ later fits member.2.1, member.2.2⟩

theorem OwnRowsFirst.later (first : OwnRowsFirst store groupId offset) (later : offset < last)
    (fits : last + 1 < 256 ^ 8) : OwnRowsFirst store groupId last :=
  fun own ownIn foreign foreignIn =>
    first own (scanRows_later later fits ownIn) foreign (scanRows_later later fits foreignIn)

theorem followOffsets_eq (store : GroupStore U) (groupId : List UInt8) (limit : Int)
    (fits : offset + 1 < 256 ^ 8) (first : OwnRowsFirst store groupId offset) :
    ∃ pages, (∀ fuel, (gsnsAbove store groupId offset).length < fuel →
        followOffsets (fun next => catchUpGroup true store groupId next limit) fuel offset =
          some pages) ∧
      pages.flatMap Page.actions =
        (gsnsAbove store groupId offset).filterMap (deliver store groupId) := by
  -- Every page that is not the last takes a GSN off those above the offset.
  induction remaining : (gsnsAbove store groupId offset).length using Nat.strong_induction_on
    generalizing offset with
  | _ count induction =>
      have positive := pageSize_pos limit
      have page := performCatchUp_eq fits first limit
      rcases Nat.lt_or_ge (gsnsAbove store groupId offset).length (max limit 1).toNat with
        short | full
      · have taken : (gsnsAbove store groupId offset).take (max limit 1).toNat =
            gsnsAbove store groupId offset := List.take_of_length_le (Nat.le_of_lt short)
        simp only [taken, if_pos short] at page
        refine ⟨[performCatchUp store groupId offset limit], ?_, ?_⟩
        · intro fuel enough
          cases fuel with
          | zero => omega
          | succ fuel =>
              simp only [followOffsets, catchUpGroup, if_true, page]
        · rw [List.flatMap_cons, List.flatMap_nil, List.append_nil, page]
      · have size : ((gsnsAbove store groupId offset).take (max limit 1).toNat).length =
            (max limit 1).toNat := by
          rw [List.length_take, Nat.min_eq_left full]
        have nonempty : (gsnsAbove store groupId offset).take (max limit 1).toNat ≠ [] := by
          intro empty
          rw [empty, List.length_nil] at size
          omega
        cases last_eq : ((gsnsAbove store groupId offset).take (max limit 1).toNat).getLast? with
        | none => exact absurd (List.getLast?_eq_none_iff.mp last_eq) nonempty
        | some last =>
            have next := gsnsAbove_last last_eq
            simp only [size, Nat.lt_irrefl, if_false, last_eq] at page
            have fewer : (gsnsAbove store groupId last).length < count := by
              rw [next.2.2, List.length_drop]
              omega
            rcases induction _ fewer next.2.1 (first.later next.1 next.2.1) rfl with
              ⟨pages, follows, delivered⟩
            refine ⟨performCatchUp store groupId offset limit :: pages, ?_, ?_⟩
            · intro fuel enough
              cases fuel with
              | zero => omega
              | succ fuel =>
                  have rest := follows fuel (by omega)
                  simp only [followOffsets, catchUpGroup, if_true, page] at rest ⊢
                  simp [rest]
            · rw [List.flatMap_cons, delivered, page, next.2.2, ← List.filterMap_append,
                List.take_append_drop]

theorem deliver_eq_some {action : LogAction U} :
    deliver store groupId gsn = some action ↔
      ∃ stored, store.actions.lookup gsn = some stored ∧
        ActionScope.updatesForGroup (ActionFormat.decode stored gsn) groupId ≠ [] ∧
          action = { ActionFormat.decode stored gsn with
            updates := ActionScope.updatesForGroup (ActionFormat.decode stored gsn) groupId } := by
  rw [deliver, Option.bind_eq_some_iff]
  apply exists_congr
  intro stored
  rw [scopeAction]
  cases ActionScope.updatesForGroup (ActionFormat.decode stored gsn) groupId with
  | nil => simp
  | cons update rest => simp [eq_comm]

theorem actions_performCatchUp (store : GroupStore U) (groupId : List UInt8) (offset : Nat)
    (limit : Int) :
    (performCatchUp store groupId offset limit).actions =
      ((((scanRows store groupId offset).takeWhile (ownRow groupId)).take
        (max limit 1).toNat).map entryGsn).filterMap (deliver store groupId) := by
  rw [← actions_eq_filterMap]
  simp only [performCatchUp]
  split
  · rfl
  · rfl

theorem mem_page_of_row (positive : 0 < gsn) (below : gsn < upperBoundGsn store.watermark)
    (indexed : encodeGroupActionKey groupId gsn ∈ store.groupActions) {action : LogAction U}
    (delivers : deliver store groupId gsn = some action) (limit : Int) :
    action ∈ (performCatchUp store groupId (gsn - 1) limit).actions := by
  have bound : upperBoundGsn store.watermark < 256 ^ 8 :=
    Nat.lt_of_le_of_lt (upperBoundGsn_le _) maxGsn_lt
  have fits : gsn < 256 ^ 8 := Nat.lt_trans below bound
  have next : gsn - 1 + 1 = gsn := Nat.sub_add_cancel positive
  have scanned : encodeGroupActionKey groupId gsn ∈ scanRows store groupId (gsn - 1) := by
    rw [scanRows, rangeIterator, List.mem_filter, next, before_irrefl, before_encode fits bound]
    exact ⟨indexed, by simpa using below⟩
  have sorted : (scanRows store groupId (gsn - 1)).Pairwise fun left right =>
      before left right = true := store.sorted.filter _
  have own : ownRow groupId (encodeGroupActionKey groupId gsn) = true :=
    ownRow_iff.mpr ⟨gsn, fits, rfl⟩
  rw [actions_performCatchUp, List.mem_filterMap]
  refine ⟨gsn, List.mem_map.mpr ⟨_, ?_, entryGsn_encode groupId fits⟩, delivers⟩
  cases rows : scanRows store groupId (gsn - 1) with
  | nil =>
      rw [rows] at scanned
      cases scanned
  | cons head rest =>
      have first : head = encodeGroupActionKey groupId gsn := by
        rw [rows] at scanned sorted
        rcases List.mem_cons.mp scanned with equal | later
        · exact equal.symm
        · have inOrder := (List.pairwise_cons.mp sorted).1 _ later
          have headIn : head ∈ scanRows store groupId (gsn - 1) := rows ▸ List.mem_cons_self
          rw [scanRows, rangeIterator, List.mem_filter, next, inOrder] at headIn
          exact absurd headIn.2 (by simp)
      rcases Nat.exists_eq_succ_of_ne_zero (Nat.ne_of_gt (pageSize_pos limit)) with ⟨size, size_eq⟩
      rw [first, List.takeWhile_cons_of_pos own, size_eq, List.take_succ_cons]
      exact List.mem_cons_self

theorem upperBoundGsn_iff {watermark : Nat} :
    gsn < upperBoundGsn watermark ↔ (watermark = 0 ∨ gsn ≤ watermark) ∧ gsn < maxGsn := by
  rw [upperBoundGsn]
  split
  · next zero => simp [zero]
  · next nonzero =>
      rw [Nat.lt_min]
      omega

/-! ## What the pages hold together -/

/-- The Updates of a stored Action that are scoped to a group, under its header. -/
def scopedCopy (stored : StoredAction U) (gsn : Nat) (groupId : List UInt8) : LogAction U :=
  { ActionFormat.decode stored gsn with
    updates := ActionScope.updatesForGroup (ActionFormat.decode stored gsn) groupId }

/-- Following the offsets ends, and the pages hold the Actions that the group index
lists above the offset and below the bound, cut to the group, in ascending order. -/
theorem catchUp_exact (store : GroupStore U) (groupId : List UInt8) (limit : Int) {offset : Nat}
    (fits : offset + 1 < 256 ^ 8) (first : OwnRowsFirst store groupId offset) :
    ∃ pages, (∀ fuel, (groupGsns store groupId).length < fuel →
        followOffsets (fun next => catchUpGroup true store groupId next limit) fuel offset =
          some pages) ∧
      (pages.flatMap Page.actions).Pairwise (fun earlier later => earlier.gsn < later.gsn) ∧
      ∀ action, action ∈ pages.flatMap Page.actions ↔
        ∃ stored, offset < action.gsn ∧ (store.watermark = 0 ∨ action.gsn ≤ store.watermark) ∧
          action.gsn < maxGsn ∧ encodeGroupActionKey groupId action.gsn ∈ store.groupActions ∧
          store.actions.lookup action.gsn = some stored ∧
          (scopedCopy stored action.gsn groupId).updates ≠ [] ∧
          action = scopedCopy stored action.gsn groupId := by
  rcases followOffsets_eq store groupId limit fits first with ⟨pages, follows, delivered⟩
  refine ⟨pages, ?_, ?_, ?_⟩
  · intro fuel enough
    exact follows fuel (Nat.lt_of_le_of_lt (List.length_filter_le _ _) enough)
  · rw [delivered, List.pairwise_filterMap]
    apply (gsnsAbove_ascending store groupId offset).imp
    intro earlier later ascending action delivers other delivered
    rcases deliver_eq_some.mp delivers with ⟨_, _, _, rfl⟩
    rcases deliver_eq_some.mp delivered with ⟨_, _, _, rfl⟩
    exact ascending
  · intro action
    rw [delivered, List.mem_filterMap]
    constructor
    · rintro ⟨gsn, member, delivers⟩
      rcases deliver_eq_some.mp delivers with ⟨stored, found, updates, rfl⟩
      have parts := mem_gsnsAbove.mp member
      have bound := upperBoundGsn_iff.mp parts.2.2
      exact ⟨stored, parts.2.1, bound.1, bound.2, (mem_groupGsns.mp parts.1).2, found, updates, rfl⟩
    · rintro ⟨stored, above, frontier, bound, indexed, found, updates, equal⟩
      refine ⟨action.gsn, mem_gsnsAbove.mpr ⟨mem_groupGsns.mpr ⟨?_, indexed⟩, above,
        upperBoundGsn_iff.mpr ⟨frontier, bound⟩⟩, deliver_eq_some.mpr ⟨stored, found, updates, equal⟩⟩
      exact Nat.lt_trans bound maxGsn_lt

def grouped (update : Nat) (groupId : List UInt8) : StoredAction Nat where
  id := "act_a"
  actorId := "a_1"
  hlc := 1
  updates := [update]
  updateScopes := some [[groupId]]

def twoRows : GroupStore Nat where
  actions := [(1, grouped 7 [103]), (2, grouped 8 [103])]
  groupActions := [encodeGroupActionKey [103] 1, encodeGroupActionKey [103] 2]
  sorted := by decide
  watermark := 2

theorem catchUp_twoRows :
    ∃ pages, (∀ fuel, (groupGsns twoRows [103]).length < fuel →
        followOffsets (fun next => catchUpGroup true twoRows [103] next 1) fuel 0 = some pages) ∧
      (pages.flatMap Page.actions).Pairwise (fun earlier later => earlier.gsn < later.gsn) ∧
      ∀ action, action ∈ pages.flatMap Page.actions ↔
        ∃ stored, 0 < action.gsn ∧ (twoRows.watermark = 0 ∨ action.gsn ≤ twoRows.watermark) ∧
          action.gsn < maxGsn ∧ encodeGroupActionKey [103] action.gsn ∈ twoRows.groupActions ∧
          twoRows.actions.lookup action.gsn = some stored ∧
          (scopedCopy stored action.gsn [103]).updates ≠ [] ∧
          action = scopedCopy stored action.gsn [103] :=
  catchUp_exact twoRows [103] 1 (by decide) (by unfold OwnRowsFirst; decide)

/-! ### A frontier of zero, and a group id with zero bytes -/

/-- The pages end and hold the scoped Actions up to the watermark. -/
def ExactUpToWatermark (store : GroupStore U) (groupId : List UInt8) (offset : Nat)
    (limit : Int) : Prop :=
  ∃ fuel pages,
    followOffsets (fun next => catchUpGroup true store groupId next limit) fuel offset =
      some pages ∧
    ∀ action, action ∈ pages.flatMap Page.actions ↔
      ∃ stored, offset < action.gsn ∧ action.gsn ≤ store.watermark ∧
        store.actions.lookup action.gsn = some stored ∧
        (scopedCopy stored action.gsn groupId).updates ≠ [] ∧
        action = scopedCopy stored action.gsn groupId

def unresolvedRow : GroupStore Nat where
  actions := [(1, grouped 7 [103])]
  groupActions := [encodeGroupActionKey [103] 1]
  sorted := by decide
  watermark := 0

/-- The id of the other group continues the first with the bytes of GSN 1. -/
def interleavedRows : GroupStore Nat where
  actions := [(1, grouped 7 [103]), (2, grouped 8 [103]),
    (3, grouped 9 [103, 0, 0, 0, 0, 0, 0, 0, 1])]
  groupActions := [encodeGroupActionKey [103] 1,
    encodeGroupActionKey [103, 0, 0, 0, 0, 0, 0, 0, 1] 3, encodeGroupActionKey [103] 2]
  sorted := by decide
  watermark := 3

theorem followOffsets_of_upToDate {request : Nat → Except CatchUpError (Page U)} {offset : Nat}
    {page : Page U} (answered : request offset = .ok page) (upToDate : page.upToDate = true)
    {fuel : Nat} {pages : List (Page U)}
    (follows : followOffsets request fuel offset = some pages) : pages = [page] := by
  cases fuel with
  | zero => cases follows
  | succ fuel =>
      rw [followOffsets, answered] at follows
      simp only [upToDate, if_true] at follows
      exact (Option.some.inj follows).symm

theorem not_exactUpToWatermark :
    ¬ ExactUpToWatermark unresolvedRow [103] 0 200 ∧
      ¬ ExactUpToWatermark interleavedRows [103] 0 200 := by
  constructor
  · rintro ⟨fuel, pages, follows, exact⟩
    have one := @followOffsets_of_upToDate Nat _ _
      { actions := [scopedCopy (grouped 7 [103]) 1 [103]], nextOffset := none, upToDate := true }
      (by rfl) rfl _ _ follows
    subst one
    have above := (exact (scopedCopy (grouped 7 [103]) 1 [103])).mp List.mem_cons_self
    rcases above with ⟨_, _, covered, _⟩
    exact absurd covered (by decide)
  · rintro ⟨fuel, pages, follows, exact⟩
    have one := @followOffsets_of_upToDate Nat _ _
      { actions := [scopedCopy (grouped 7 [103]) 1 [103]], nextOffset := none, upToDate := true }
      (by rfl) rfl _ _ follows
    subst one
    have hidden := (exact (scopedCopy (grouped 8 [103]) 2 [103])).mpr
      ⟨grouped 8 [103], by decide, by decide, rfl, by decide, rfl⟩
    have same := List.mem_singleton.mp hidden
    exact absurd (congrArg LogAction.gsn same) (by decide)

end Ebb.Sync.CatchUp
