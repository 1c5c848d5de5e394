import Ebb.Storage.LogOrder
import Ebb.Storage.Replica

namespace Ebb.Storage

/-! The replica against the store's replay. The replica folds Updates as they
arrive while the store folds them in GSN order; this module says which arrivals
leave the two on one row. -/

/-! ## Rows with the same content -/

structure Entity.Same (left right : Entity V) : Prop where
  id : left.id = right.id
  type : left.type = right.type
  fields : SameFields left.fields right.fields
  createdHlc : left.createdHlc = right.createdHlc
  updatedHlc : left.updatedHlc = right.updatedHlc
  deletedHlc : left.deletedHlc = right.deletedHlc
  lastGsn : left.lastGsn = right.lastGsn

def SameRow : Option (Entity V) → Option (Entity V) → Prop
  | none, none => True
  | some left, some right => left.Same right
  | _, _ => False

theorem Entity.Same.refl (row : Entity V) : row.Same row where
  id := rfl
  type := rfl
  fields := SameFields.refl _
  createdHlc := rfl
  updatedHlc := rfl
  deletedHlc := rfl
  lastGsn := rfl

theorem SameRow.refl (row : Option (Entity V)) : SameRow row row := by
  cases row with
  | none => trivial
  | some row => exact Entity.Same.refl row

theorem SameRow.trans {first second third : Option (Entity V)} (before : SameRow first second)
    (after : SameRow second third) : SameRow first third := by
  rcases first with _ | first <;> rcases second with _ | second <;> rcases third with _ | third
  · trivial
  · exact after
  · exact before.elim
  · exact before.elim
  · exact before
  · exact before.elim
  · exact after.elim
  · exact {
      id := before.id.trans after.id
      type := before.type.trans after.type
      fields := before.fields.trans after.fields
      createdHlc := before.createdHlc.trans after.createdHlc
      updatedHlc := before.updatedHlc.trans after.updatedHlc
      deletedHlc := before.deletedHlc.trans after.deletedHlc
      lastGsn := before.lastGsn.trans after.lastGsn }

variable {left right : Option (Entity V)} {updates : List (CommittedUpdate V)}
  {committed : CommittedUpdate V} {row : Option (Entity V)} {holds : String → Bool}

theorem SameRow.map_lastGsn (same : SameRow left right) :
    left.map Entity.lastGsn = right.map Entity.lastGsn := by
  rcases left with _ | left <;> rcases right with _ | right
  · rfl
  · exact same.elim
  · exact same.elim
  · exact congrArg some (Entity.Same.lastGsn same)

theorem SameRow.applyUpdate (same : SameRow left right) {update : Update V}
    (keyed : (FieldValue.map (readFields update)).Keyed) (gsn : Nat) (hlc : HLCTimestamp) :
    SameRow (applyUpdate left update gsn hlc) (applyUpdate right update gsn hlc) := by
  rcases left with _ | left <;> rcases right with _ | right
  · exact SameRow.refl _
  · exact same.elim
  · exact same.elim
  · cases method : update.method with
    | put =>
        simp only [Storage.applyUpdate, method]
        exact SameRow.refl _
    | patch =>
        simp only [Storage.applyUpdate, method, same.deletedHlc]
        split
        · exact same
        · exact { same with
            fields := same.fields.mergeEntries keyed.1 keyed.2
            updatedHlc := by rw [same.updatedHlc]
            deletedHlc := rfl
            lastGsn := by rw [same.lastGsn] }
    | delete =>
        simp only [Storage.applyUpdate, method]
        exact { same with
          updatedHlc := rfl
          deletedHlc := rfl
          lastGsn := by rw [same.lastGsn] }

theorem SameRow.foldl_applyCommitted (same : SameRow left right)
    (keyed : ∀ committed ∈ updates, (FieldValue.map (readFields committed.update)).Keyed) :
    SameRow (updates.foldl applyCommitted left) (updates.foldl applyCommitted right) := by
  induction updates generalizing left right with
  | nil => exact same
  | cons committed rest induction =>
      exact induction (same.applyUpdate (keyed committed List.mem_cons_self) _ _)
        fun other member => keyed other (List.mem_cons_of_mem _ member)

/-! ## What a replay forgets and keeps -/

def isPut (committed : CommittedUpdate V) : Bool := committed.update.method == .put

def isPatch (committed : CommittedUpdate V) : Bool := committed.update.method == .patch

theorem applyCommitted_of_put (put : isPut committed = true) (left right : Option (Entity V)) :
    applyCommitted left committed = applyCommitted right committed := by
  have method : committed.update.method = .put := eq_of_beq put
  simp only [applyCommitted, applyUpdate, method]

theorem foldl_applyCommitted_of_put (put : ∃ committed ∈ updates, isPut committed = true)
    (left right : Option (Entity V)) :
    updates.foldl applyCommitted left = updates.foldl applyCommitted right := by
  induction updates generalizing left right with
  | nil =>
      rcases put with ⟨committed, member, _⟩
      cases member
  | cons head rest induction =>
      by_cases first : isPut head = true
      · rw [List.foldl_cons, List.foldl_cons, applyCommitted_of_put first left right]
      · apply induction
        rcases put with ⟨committed, member, isPut⟩
        rcases List.mem_cons.mp member with equal | member
        · exact absurd (equal ▸ isPut) first
        · exact ⟨committed, member, isPut⟩

theorem foldl_applyCommitted_none (noPut : ∀ committed ∈ updates, isPut committed = false) :
    updates.foldl applyCommitted none = none := by
  induction updates with
  | nil => rfl
  | cons head rest induction =>
      have headNoPut := noPut head List.mem_cons_self
      have headNone : applyCommitted none head = none := by
        cases method : head.update.method with
        | put => simp [isPut, method] at headNoPut
        | patch => simp [applyCommitted, applyUpdate, method]
        | delete => simp [applyCommitted, applyUpdate, method]
      rw [List.foldl_cons, headNone]
      exact induction fun committed member => noPut committed (List.mem_cons_of_mem _ member)

theorem type_applyCommitted (row : Option (Entity V)) (committed : CommittedUpdate V) :
    (applyCommitted row committed).map Entity.type =
      if isPut committed then some committed.update.subjectType else row.map Entity.type := by
  cases method : committed.update.method with
  | put => simp [applyCommitted, applyUpdate, isPut, method]
  | patch =>
      rcases row with _ | row
      · simp [applyCommitted, applyUpdate, isPut, method]
      · simp only [applyCommitted, applyUpdate, isPut, method]
        split <;> rfl
  | delete =>
      rcases row with _ | row <;> simp [applyCommitted, applyUpdate, isPut, method]

theorem type_foldl_applyCommitted_congr (same : left.map Entity.type = right.map Entity.type)
    (updates : List (CommittedUpdate V)) :
    (updates.foldl applyCommitted left).map Entity.type =
      (updates.foldl applyCommitted right).map Entity.type := by
  induction updates generalizing left right with
  | nil => exact same
  | cons head rest induction =>
      apply induction
      rw [type_applyCommitted, type_applyCommitted, same]

theorem type_foldl_of_noPut (noPut : ∀ committed ∈ updates, isPut committed = false)
    (row : Option (Entity V)) :
    (updates.foldl applyCommitted row).map Entity.type = row.map Entity.type := by
  induction updates generalizing row with
  | nil => rfl
  | cons head rest induction =>
      rw [List.foldl_cons,
        induction (fun committed member => noPut committed (List.mem_cons_of_mem _ member)),
        type_applyCommitted, noPut head List.mem_cons_self]
      rfl

/-- A row as the replica keeps it: only while the policy holds its type. -/
def heldRow (holds : String → Bool) (row : Option (Entity V)) : Option (Entity V) :=
  row.filter fun row => holds row.type

theorem heldRow_eq_none_iff :
    heldRow holds row = none ↔ ∀ type, row.map Entity.type = some type → holds type = false := by
  rcases row with _ | row
  · simp [heldRow]
  · simp [heldRow, Option.filter]

theorem heldRow_eq_none_congr (sameType : left.map Entity.type = right.map Entity.type) :
    heldRow holds left = none ↔ heldRow holds right = none := by
  rw [heldRow_eq_none_iff, heldRow_eq_none_iff, sameType]

theorem heldRow_eq_some_iff {held : Entity V} :
    heldRow holds row = some held ↔ row = some held ∧ holds held.type = true := by
  rw [heldRow, Option.filter_eq_some_iff]

/-! ## Arrivals the replica folds in place -/

def Tombstoned : Option (Entity V) → Prop
  | some row => row.deletedHlc.isSome = true
  | none => False

def Live : Option (Entity V) → Prop
  | some row => row.deletedHlc = none
  | none => False

/-- The row is as new as the patch in every field the patch writes. -/
structure Absorbs (row : Entity V) (committed : CommittedUpdate V) : Prop where
  fields : SameFields (mergeFields row.fields committed.update) row.fields
  hlc : committed.hlc ≤ row.updatedHlc
  gsn : committed.gsn ≤ row.lastGsn

/-- The two patches may be merged in either order: no leaf of time zero stands under an
inherited name in the later one, and the fields they share are compatible. -/
def Commutes (committed later : CommittedUpdate V) : Prop :=
  isPatch later = true ∧ NamesStamped (readFields later.update) ∧
    fieldsCompatible (readFields committed.update) (readFields later.update)

/-- A patch the replica may fold behind `later`: either it commutes with patches
alone, or neither the replay nor the row takes anything from it. -/
def PatchInPlace (earlierRow : Option (Entity V)) (later : List (CommittedUpdate V))
    (row : Entity V) (committed : CommittedUpdate V) : Prop :=
  (Live earlierRow ∧ NamesStamped (readFields committed.update) ∧
    ∀ other ∈ later, Commutes committed other) ∨
  ((Tombstoned earlierRow ∨ ∃ other ∈ later, isPut other = true) ∧
    (row.deletedHlc.isSome = true ∨ Absorbs row committed))

/-- An Update arriving for an entity whose replay folds `updates` so far. It is
newer than all of them, or the replica has no row for it to be folded into out
of order, or it is one that may be folded late. -/
def InPlace (holds : String → Bool) (updates : List (CommittedUpdate V))
    (committed : CommittedUpdate V) : Prop :=
  let earlierRow :=
    (upTo CommittedUpdate.gsn committed.gsn updates).foldl applyCommitted none
  let later := beyond CommittedUpdate.gsn committed.gsn updates
  later = [] ∨
    match heldRow holds (updates.foldl applyCommitted none) with
    | none =>
        isPut committed = true → holds committed.update.subjectType = true →
          (∀ other ∈ updates, isPut other = false) ∧
            ∀ other ∈ later, holds other.update.subjectType = true
    | some row =>
        match committed.update.method with
        | .put => False
        | .patch => PatchInPlace earlierRow later row committed
        | .delete => Tombstoned earlierRow ∧ ∀ other ∈ later, isPatch other = true

/-! ## Folding late -/

theorem applyCommitted_of_tombstoned {row : Option (Entity V)} (tombstoned : Tombstoned row)
    {committed : CommittedUpdate V} (patch : isPatch committed = true) :
    applyCommitted row committed = row := by
  have method : committed.update.method = .patch := eq_of_beq patch
  rcases row with _ | row
  · exact tombstoned.elim
  · simp only [applyCommitted, applyUpdate, method]
    exact if_pos tombstoned

theorem foldl_applyCommitted_of_tombstoned (tombstoned : Tombstoned row)
    (patches : ∀ committed ∈ updates, isPatch committed = true) :
    updates.foldl applyCommitted row = row := by
  induction updates with
  | nil => rfl
  | cons head rest induction =>
      rw [List.foldl_cons,
        applyCommitted_of_tombstoned tombstoned (patches head List.mem_cons_self)]
      exact induction fun committed member => patches committed (List.mem_cons_of_mem _ member)

def patchRow (row : Entity V) (committed : CommittedUpdate V) : Entity V :=
  { row with
    fields := mergeFields row.fields committed.update
    updatedHlc := max row.updatedHlc committed.hlc
    lastGsn := max row.lastGsn committed.gsn }

theorem applyCommitted_of_live {row : Entity V} (live : row.deletedHlc = none)
    (patch : isPatch committed = true) :
    applyCommitted (some row) committed = some (patchRow row committed) := by
  have method : committed.update.method = .patch := eq_of_beq patch
  simp [applyCommitted, applyUpdate, method, live, patchRow]

theorem applyCommitted_patch_swap (live : Live row) {first second : CommittedUpdate V}
    (firstPatch : isPatch first = true) (firstStamped : NamesStamped (readFields first.update))
    (firstKeyed : (FieldValue.map (readFields first.update)).Keyed)
    (secondKeyed : (FieldValue.map (readFields second.update)).Keyed)
    (commutes : Commutes first second) :
    SameRow (applyCommitted (applyCommitted row second) first)
      (applyCommitted (applyCommitted row first) second) := by
  rcases row with _ | row
  · exact live.elim
  · have liveFirst : (patchRow row first).deletedHlc = none := live
    have liveSecond : (patchRow row second).deletedHlc = none := live
    rw [applyCommitted_of_live live firstPatch, applyCommitted_of_live live commutes.1,
      applyCommitted_of_live liveSecond firstPatch, applyCommitted_of_live liveFirst commutes.1]
    exact {
      id := rfl
      type := rfl
      fields := (mergeEntries_swap row.fields firstKeyed secondKeyed firstStamped
        commutes.2.1 commutes.2.2).symm
      createdHlc := rfl
      updatedHlc := Nat.max_right_comm _ _ _
      deletedHlc := rfl
      lastGsn := Nat.max_right_comm _ _ _ }

theorem foldl_applyCommitted_patch_last (live : Live row) (patch : isPatch committed = true)
    (stamped : NamesStamped (readFields committed.update))
    (keyed : (FieldValue.map (readFields committed.update)).Keyed)
    {later : List (CommittedUpdate V)}
    (laterKeyed : ∀ other ∈ later, (FieldValue.map (readFields other.update)).Keyed)
    (commutes : ∀ other ∈ later, Commutes committed other) :
    SameRow (applyCommitted (later.foldl applyCommitted row) committed)
      (later.foldl applyCommitted (applyCommitted row committed)) := by
  induction later generalizing row with
  | nil => exact SameRow.refl _
  | cons head rest induction =>
      have headCommutes := commutes head List.mem_cons_self
      have headKeyed := laterKeyed head List.mem_cons_self
      have restKeyed : ∀ other ∈ rest, (FieldValue.map (readFields other.update)).Keyed :=
        fun other member => laterKeyed other (List.mem_cons_of_mem _ member)
      have stillLive : Live (applyCommitted row head) := by
        rcases row with _ | row
        · exact live.elim
        · rw [applyCommitted_of_live live headCommutes.1]
          exact live
      have moved := induction stillLive restKeyed fun other member =>
        commutes other (List.mem_cons_of_mem _ member)
      have swapped := applyCommitted_patch_swap live patch stamped keyed headKeyed headCommutes
      exact moved.trans (swapped.foldl_applyCommitted restKeyed)

theorem applyCommitted_of_absorbs {row : Entity V} (patch : isPatch committed = true)
    (absorbs : Absorbs row committed) :
    SameRow (applyCommitted (some row) committed) (some row) := by
  by_cases live : row.deletedHlc = none
  · rw [applyCommitted_of_live live patch]
    exact {
      id := rfl
      type := rfl
      fields := absorbs.fields
      createdHlc := rfl
      updatedHlc := Nat.max_eq_left absorbs.hlc
      deletedHlc := rfl
      lastGsn := Nat.max_eq_left absorbs.gsn }
  · have tombstoned : Tombstoned (some row) := Option.isSome_iff_ne_none.mpr live
    rw [applyCommitted_of_tombstoned tombstoned patch]
    exact SameRow.refl _

theorem applyCommitted_late (sorted : SortedBy CommittedUpdate.gsn updates)
    (keyed : ∀ other ∈ updates, (FieldValue.map (readFields other.update)).Keyed)
    (committedKeyed : (FieldValue.map (readFields committed.update)).Keyed)
    (inPlace : InPlace holds updates committed) {row : Entity V}
    (held : heldRow holds (updates.foldl applyCommitted none) = some row) :
    SameRow (applyCommitted (some row) committed)
      ((insertBy CommittedUpdate.gsn committed updates).foldl applyCommitted none) := by
  have rowEq := (heldRow_eq_some_iff.mp held).1
  have split := upTo_append_beyond sorted committed.gsn
  simp only [InPlace, held] at inPlace
  rw [insertBy, List.foldl_append, List.foldl_cons]
  have later : ∀ other ∈ beyond CommittedUpdate.gsn committed.gsn updates,
      (FieldValue.map (readFields other.update)).Keyed :=
    fun other member => keyed other (List.mem_filter.mp member).1
  rw [← split, List.foldl_append] at rowEq
  generalize (upTo CommittedUpdate.gsn committed.gsn updates).foldl applyCommitted none =
    earlierRow at inPlace rowEq ⊢
  generalize beyond CommittedUpdate.gsn committed.gsn updates = laterUpdates at inPlace rowEq later ⊢
  rcases inPlace with nothingLater | inPlace
  · subst nothingLater
    rw [← rowEq]
    exact SameRow.refl _
  · cases method : committed.update.method with
    | put =>
        rw [method] at inPlace
        exact inPlace.elim
    | patch =>
        rw [method] at inPlace
        have patch : isPatch committed = true := by simp [isPatch, method]
        rcases inPlace with ⟨live, stamped, commutes⟩ | ⟨forgotten, unchanged⟩
        · rw [← rowEq]
          exact foldl_applyCommitted_patch_last live patch stamped committedKeyed later commutes
        · have replayed : laterUpdates.foldl applyCommitted
              (applyCommitted earlierRow committed) = some row := by
            rcases forgotten with tombstoned | put
            · rw [applyCommitted_of_tombstoned tombstoned patch, rowEq]
            · rw [foldl_applyCommitted_of_put put _ earlierRow, rowEq]
          rw [replayed]
          rcases unchanged with deleted | absorbs
          · rw [@applyCommitted_of_tombstoned V (some row) deleted committed patch]
            exact SameRow.refl _
          · exact applyCommitted_of_absorbs patch absorbs
    | delete =>
        rw [method] at inPlace
        rcases inPlace with ⟨tombstoned, patches⟩
        rw [foldl_applyCommitted_of_tombstoned tombstoned patches] at rowEq
        have stillTombstoned : Tombstoned (applyCommitted earlierRow committed) := by
          rw [rowEq]
          simp [applyCommitted, applyUpdate, method, Tombstoned]
        rw [foldl_applyCommitted_of_tombstoned stillTombstoned patches, rowEq]
        exact SameRow.refl _

end Ebb.Storage
