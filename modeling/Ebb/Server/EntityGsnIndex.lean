import Ebb.Foundation.Bag
import Ebb.Foundation.KeyRows
import Ebb.Foundation.Keyset
import Ebb.Foundation.OrderedMap
import Mathlib.Data.List.Pairwise

namespace Ebb.Server

/-! The index from an entity to the GSNs that touch it: what a flush writes for its
subjects, and the scan that finds what a reader has not applied. -/

namespace RocksDB

/-! ## Rows -/

def encodeEntityFlushKey (entityId : List UInt8) (maxGsn : Nat) : List UInt8 :=
  entityId ++ bigEndian 8 maxGsn

def encodeSortedGsns (gsns : List Nat) : List UInt8 := gsns.flatMap (bigEndian 8)

/-- The row of one subject in a flush. There is none for an empty list. -/
def encodeEntityGsnRow (entityId : List UInt8) (gsns : List Nat) : Option Row :=
  let sorted := gsns.eraseDups.mergeSort (· ≤ ·)
  sorted.getLast?.map fun maxGsn => (encodeEntityFlushKey entityId maxGsn, encodeSortedGsns sorted)

def decodeGsns : List UInt8 → List Nat
  | a :: b :: c :: d :: e :: f :: g :: h :: rest =>
      fromBigEndian [a, b, c, d, e, f, g, h] :: decodeGsns rest
  | _ => []

/-- None where the source raises: an empty list, or a part of a GSN at its end. -/
def decodeGsnList (value : List UInt8) : Option (List Nat) :=
  if value = [] then none
  else if value.length % 8 = 0 then some (decodeGsns value)
  else none

def entityGsnIterator (rows : List Row) (entityId : List UInt8) (fromGsn : Nat) : List Row :=
  rangeRows rows (encodeEntityFlushKey entityId fromGsn) (prefixUpperBound entityId)

theorem decodeGsns_append (gsn : Nat) (rest : List UInt8) :
    decodeGsns (bigEndian 8 gsn ++ rest) = gsn % 256 ^ 8 :: decodeGsns rest := by
  rw [← fromBigEndian_bigEndian 8 gsn]
  rfl

theorem decodeGsnList_encode {gsns : List Nat} (filled : gsns ≠ [])
    (fits : ∀ gsn ∈ gsns, gsn < 256 ^ 8) : decodeGsnList (encodeSortedGsns gsns) = some gsns := by
  have length : (encodeSortedGsns gsns).length = 8 * gsns.length := by
    simp [encodeSortedGsns, List.length_flatMap, length_bigEndian, Nat.mul_comm]
  have decoded : ∀ gsns : List Nat, (∀ gsn ∈ gsns, gsn < 256 ^ 8) →
      decodeGsns (encodeSortedGsns gsns) = gsns := by
    intro gsns fits
    induction gsns with
    | nil => rfl
    | cons gsn gsns induction =>
        have small := fits gsn List.mem_cons_self
        rw [encodeSortedGsns, List.flatMap_cons, decodeGsns_append, Nat.mod_eq_of_lt small]
        exact congrArg (gsn :: ·) (induction fun other member => fits other (.tail _ member))
  have present : encodeSortedGsns gsns ≠ [] := by
    intro empty
    rw [empty, List.length_nil] at length
    have := List.length_pos_iff.mpr filled
    omega
  rw [decodeGsnList, if_neg present, length, Nat.mul_mod_right, if_pos rfl, decoded gsns fits]

theorem encodeEntityFlushKey_inj {entityId other : List UInt8} {maxGsn otherMax : Nat}
    (fits : maxGsn < 256 ^ 8) (otherFits : otherMax < 256 ^ 8)
    (same : encodeEntityFlushKey entityId maxGsn = encodeEntityFlushKey other otherMax) :
    entityId = other ∧ maxGsn = otherMax := by
  have parts := List.append_inj' same (by rw [length_bigEndian, length_bigEndian])
  have numbers := congrArg fromBigEndian parts.2
  rw [fromBigEndian_bigEndian, fromBigEndian_bigEndian, Nat.mod_eq_of_lt fits,
    Nat.mod_eq_of_lt otherFits] at numbers
  exact ⟨parts.1, numbers⟩

end RocksDB

/-! ## Flushes -/

/-- A batch as the Committer writes it: the subjects of the Updates of each Action, under the
GSNs from `gsnStart` on. -/
structure FlushedBatch where
  gsnStart : Nat
  actions : List (List (List UInt8))

namespace FlushedBatch

def addSubjectGsns (gsn : Nat) (subjects : List (List UInt8))
    (acc : OrderedMap (List UInt8) (List Nat)) : OrderedMap (List UInt8) (List Nat) :=
  subjects.foldl
    (fun acc subject =>
      acc.set subject (match acc.get? subject with
        | none => [gsn]
        | some gsns => gsn :: gsns))
    acc

def subjectGsns (batch : FlushedBatch) : OrderedMap (List UInt8) (List Nat) :=
  (batch.actions.zipIdx batch.gsnStart).foldl
    (fun acc action => addSubjectGsns action.2 action.1 acc) .empty

def entityOps (batch : FlushedBatch) : List Row :=
  (batch.subjectGsns.entries.filterMap fun entry => RocksDB.encodeEntityGsnRow entry.1 entry.2).mergeSort
    fun left right => !before right.1 left.1

def Touches (batch : FlushedBatch) (gsn : Nat) (entityId : List UInt8) : Prop :=
  ∃ subjects, (subjects, gsn) ∈ batch.actions.zipIdx batch.gsnStart ∧ entityId ∈ subjects

def touching (batch : FlushedBatch) (entityId : List UInt8) : List Nat :=
  ((batch.actions.zipIdx batch.gsnStart).filter fun action => action.1.contains entityId).map
    Prod.snd

variable {batch : FlushedBatch}

theorem mem_touching {gsn : Nat} {entityId : List UInt8} :
    gsn ∈ batch.touching entityId ↔ batch.Touches gsn entityId := by
  simp [touching, Touches]

theorem get?_addSubjectGsns (gsn : Nat) (subjects : List (List UInt8))
    (acc : OrderedMap (List UInt8) (List Nat)) (entityId : List UInt8) (other : Nat) :
    other ∈ ((addSubjectGsns gsn subjects acc).get? entityId).getD [] ↔
      other ∈ (acc.get? entityId).getD [] ∨ other = gsn ∧ entityId ∈ subjects := by
  induction subjects generalizing acc with
  | nil => simp [addSubjectGsns]
  | cons subject subjects induction =>
      rw [addSubjectGsns, List.foldl_cons]
      refine (induction _).trans ?_
      rw [OrderedMap.get?_set]
      by_cases same : entityId = subject
      · subst same
        cases acc.get? entityId with
        | none =>
            simp only [if_true, Option.getD_some, Option.getD_none, List.mem_cons, List.not_mem_nil,
              or_false, true_or, and_true, false_or]
            tauto
        | some gsns =>
            simp only [if_true, Option.getD_some, List.mem_cons, true_or, and_true]
            tauto
      · simp [same]

theorem mem_subjectGsns (batch : FlushedBatch) (entityId : List UInt8) (gsn : Nat) :
    gsn ∈ (batch.subjectGsns.get? entityId).getD [] ↔ batch.Touches gsn entityId := by
  have general : ∀ (actions : List (List (List UInt8) × Nat))
      (acc : OrderedMap (List UInt8) (List Nat)),
      gsn ∈ ((actions.foldl (fun acc action => addSubjectGsns action.2 action.1 acc) acc).get?
          entityId).getD [] ↔
        gsn ∈ (acc.get? entityId).getD [] ∨
          ∃ subjects, (subjects, gsn) ∈ actions ∧ entityId ∈ subjects := by
    intro actions
    induction actions with
    | nil => simp
    | cons action actions induction =>
        intro acc
        rw [List.foldl_cons, induction, get?_addSubjectGsns, or_assoc]
        refine or_congr_right ?_
        obtain ⟨touched, number⟩ := action
        simp only [List.mem_cons, Prod.mk.injEq]
        grind
  exact (general (batch.actions.zipIdx batch.gsnStart) .empty).trans (by simp [Touches])

theorem touching_ascending (batch : FlushedBatch) (entityId : List UInt8) :
    (batch.touching entityId).Pairwise (· < ·) := by
  have numbers : ((batch.actions.zipIdx batch.gsnStart).map Prod.snd).Pairwise (· < ·) := by
    rw [List.zipIdx_map_snd]
    exact List.pairwise_lt_range'
  exact numbers.sublist (List.filter_sublist.map _)

theorem sorted_eq_touching {entityId : List UInt8} {gsns : List Nat}
    (found : batch.subjectGsns.get? entityId = some gsns) :
    gsns.eraseDups.mergeSort (· ≤ ·) = batch.touching entityId := by
  have members := mem_subjectGsns batch entityId
  rw [found, Option.getD_some] at members
  have sorted : (gsns.eraseDups.mergeSort (· ≤ ·)).Pairwise (· ≤ ·) := by
    have pairs : (gsns.eraseDups.mergeSort (· ≤ ·)).Pairwise fun a b => decide (a ≤ b) = true :=
      List.pairwise_mergeSort
        (fun a b c => by simp only [decide_eq_true_eq]; omega)
        (fun a b => by simp only [Bool.or_eq_true, decide_eq_true_eq]; omega) _
    exact pairs.imp fun less => by simpa using less
  have distinct : (gsns.eraseDups.mergeSort (· ≤ ·)).Nodup :=
    (List.mergeSort_perm _ _).nodup_iff.mpr (nodup_eraseDups gsns)
  refine Keyset.eq_of_ascending id ?_ (touching_ascending batch entityId) fun gsn => ?_
  · exact (sorted.and distinct).imp fun both => Nat.lt_of_le_of_ne both.1 both.2
  · rw [List.mem_mergeSort, List.mem_eraseDups, members, mem_touching]

def rowOf (batch : FlushedBatch) (entityId : List UInt8) (maxGsn : Nat) : Row :=
  (RocksDB.encodeEntityFlushKey entityId maxGsn, RocksDB.encodeSortedGsns (batch.touching entityId))

theorem mem_entityOps {row : Row} :
    row ∈ batch.entityOps ↔ ∃ entityId maxGsn,
      (batch.touching entityId).getLast? = some maxGsn ∧ row = batch.rowOf entityId maxGsn := by
  simp only [entityOps, List.mem_mergeSort, List.mem_filterMap]
  constructor
  · rintro ⟨⟨entityId, gsns⟩, member, encoded⟩
    have found := (batch.subjectGsns.get?_eq_some_iff entityId gsns).mpr member
    simp only [RocksDB.encodeEntityGsnRow, sorted_eq_touching found, Option.map_eq_some_iff] at encoded
    obtain ⟨maxGsn, last, rfl⟩ := encoded
    exact ⟨entityId, maxGsn, last, rfl⟩
  · rintro ⟨entityId, maxGsn, last, rfl⟩
    have touched := mem_touching.mp (List.mem_of_getLast? last)
    have listed := (mem_subjectGsns batch entityId maxGsn).mpr touched
    cases found : batch.subjectGsns.get? entityId with
    | none => simp [found] at listed
    | some gsns =>
        refine ⟨(entityId, gsns), (batch.subjectGsns.get?_eq_some_iff entityId gsns).mp found, ?_⟩
        simp [RocksDB.encodeEntityGsnRow, sorted_eq_touching found, last, rowOf]

end FlushedBatch

/-! ## Histories -/

/-- The two batches have no GSN in common. -/
def FlushedBatch.Apart (one other : FlushedBatch) : Prop :=
  one.gsnStart + one.actions.length ≤ other.gsnStart ∨
    other.gsnStart + other.actions.length ≤ one.gsnStart

instance : Std.Symm FlushedBatch.Apart := ⟨fun _ _ apart => apart.symm⟩

/-- The batches flushed so far, in any order. Each got a GSN range of its own, of GSNs that
fit their keys. -/
structure FlushHistory where
  batches : List FlushedBatch
  fits : ∀ batch ∈ batches, batch.gsnStart + batch.actions.length ≤ 256 ^ 8
  apart : batches.Pairwise FlushedBatch.Apart

namespace FlushHistory

/-- The column family `cf_entity_actions`. -/
def rows (history : FlushHistory) : List Row :=
  history.batches.foldl (fun rows batch => putRows batch.entityOps rows) []

def Touches (history : FlushHistory) (gsn : Nat) (entityId : List UInt8) : Prop :=
  ∃ batch ∈ history.batches, batch.Touches gsn entityId

end FlushHistory

theorem FlushedBatch.Touches.range {batch : FlushedBatch} {gsn : Nat} {entityId : List UInt8}
    (touches : batch.Touches gsn entityId) :
    batch.gsnStart ≤ gsn ∧ gsn < batch.gsnStart + batch.actions.length := by
  obtain ⟨subjects, listed, _⟩ := touches
  exact ⟨List.le_snd_of_mem_zipIdx listed, List.snd_lt_add_of_mem_zipIdx listed⟩

namespace FlushHistory

variable {history : FlushHistory}

theorem batch_eq (history : FlushHistory) {one other : FlushedBatch} (inOne : one ∈ history.batches)
    (inOther : other ∈ history.batches) {gsn : Nat} {entityId otherId : List UInt8}
    (touches : one.Touches gsn entityId) (otherTouches : other.Touches gsn otherId) :
    one = other := by
  by_contra different
  have apart := history.apart.forall inOne inOther different
  simp only [FlushedBatch.Apart] at apart
  have first := touches.range
  have second := otherTouches.range
  omega

theorem lt_of_touches {gsn : Nat} {entityId : List UInt8}
    (touches : history.Touches gsn entityId) : gsn < 256 ^ 8 := by
  obtain ⟨batch, member, touched⟩ := touches
  have fits := history.fits batch member
  have range := touched.range
  omega

theorem row_eq (history : FlushHistory) {one other : FlushedBatch} (inOne : one ∈ history.batches)
    (inOther : other ∈ history.batches) {row otherRow : Row} (listed : row ∈ one.entityOps)
    (otherListed : otherRow ∈ other.entityOps) (same : row.1 = otherRow.1) : row = otherRow := by
  obtain ⟨entityId, maxGsn, last, rfl⟩ := FlushedBatch.mem_entityOps.mp listed
  obtain ⟨otherId, otherMax, otherLast, rfl⟩ := FlushedBatch.mem_entityOps.mp otherListed
  have touches := FlushedBatch.mem_touching.mp (List.mem_of_getLast? last)
  have otherTouches := FlushedBatch.mem_touching.mp (List.mem_of_getLast? otherLast)
  obtain ⟨rfl, rfl⟩ := RocksDB.encodeEntityFlushKey_inj (lt_of_touches ⟨one, inOne, touches⟩)
    (lt_of_touches ⟨other, inOther, otherTouches⟩) same
  rw [history.batch_eq inOne inOther touches otherTouches]

theorem rows_spec (history : FlushHistory) : InKeyOrder history.rows ∧
    ∀ row, row ∈ history.rows ↔ ∃ batch ∈ history.batches, row ∈ batch.entityOps := by
  have general : ∀ (batches : List FlushedBatch) (rows : List Row), InKeyOrder rows →
      (∀ batch ∈ batches, batch ∈ history.batches) →
      (∀ row ∈ rows, ∃ batch ∈ history.batches, row ∈ batch.entityOps) →
      InKeyOrder (batches.foldl (fun rows batch => putRows batch.entityOps rows) rows) ∧
        ∀ row, row ∈ batches.foldl (fun rows batch => putRows batch.entityOps rows) rows ↔
          row ∈ rows ∨ ∃ batch ∈ batches, row ∈ batch.entityOps := by
    intro batches
    induction batches with
    | nil =>
        intro rows ordered _ _
        exact ⟨ordered, by simp⟩
    | cons batch batches induction =>
        intro rows ordered inside written
        have here := inside batch List.mem_cons_self
        have written' : ∀ row ∈ rows ++ batch.entityOps,
            ∃ batch ∈ history.batches, row ∈ batch.entityOps := by
          intro row member
          cases List.mem_append.mp member with
          | inl old => exact written row old
          | inr new => exact ⟨batch, here, new⟩
        have single : ∀ one ∈ rows ++ batch.entityOps, ∀ other ∈ rows ++ batch.entityOps,
            one.1 = other.1 → one = other := by
          intro one oneMember other otherMember same
          obtain ⟨first, inFirst, listed⟩ := written' one oneMember
          obtain ⟨second, inSecond, otherListed⟩ := written' other otherMember
          exact history.row_eq inFirst inSecond listed otherListed same
        have members := mem_putRows batch.entityOps ordered single
        obtain ⟨nextOrdered, next⟩ := induction _ (putRows_ordered batch.entityOps ordered)
          (fun other member => inside other (.tail _ member))
          (fun row member => written' row ((members row).mp member))
        refine ⟨nextOrdered, fun row => ?_⟩
        rw [List.foldl_cons, next, members, List.mem_append, List.exists_mem_cons_iff, or_assoc]
  obtain ⟨ordered, members⟩ := general history.batches [] .nil (fun _ member => member) (by simp)
  exact ⟨ordered, fun row => (members row).trans (by simp)⟩

end FlushHistory

/-! ## Reading -/

namespace EntityStore

def maxGsn : Nat := 0xFFFFFFFFFFFFFFFF

def firstUnappliedGsn : Option Nat → Nat
  | none => 0
  | some lastGsn => min (lastGsn + 1) maxGsn

def unappliedGsn (gsn : Nat) : Option Nat → Bool
  | none => true
  | some lastGsn => decide (lastGsn < gsn)

def fetchRelevantGsns (rows : List Row) (entityId : List UInt8) (lastGsn : Option Nat) :
    Option (List Nat) :=
  let scanned := RocksDB.entityGsnIterator rows entityId (firstUnappliedGsn lastGsn)
  let lists := scanned.mapM fun row =>
    (RocksDB.decodeGsnList row.2).map (·.filter fun gsn => unappliedGsn gsn lastGsn)
  lists.map fun lists => lists.flatten.mergeSort (· ≤ ·)

def relevant (lastGsn : Option Nat) (row : Row) : List Nat :=
  (RocksDB.decodeGsns row.2).filter fun gsn => unappliedGsn gsn lastGsn

theorem mapM_eq_map {α β : Type} {read : α → Option β} {value : α → β} {items : List α}
    (reads : ∀ item ∈ items, read item = some (value item)) :
    items.mapM read = some (items.map value) := by
  induction items with
  | nil => rfl
  | cons item items induction =>
      rw [List.mapM_cons, reads item List.mem_cons_self,
        induction fun other member => reads other (.tail _ member)]
      rfl

variable {history : FlushHistory} {entityId : List UInt8} {lastGsn : Option Nat}

def scanned (history : FlushHistory) (entityId : List UInt8) (lastGsn : Option Nat) : List Row :=
  RocksDB.entityGsnIterator history.rows entityId (firstUnappliedGsn lastGsn)

/-- A key in the scan: it has the entity's id as a prefix, and what follows is not before the
GSN the scan starts at. -/
def InScan (entityId : List UInt8) (lastGsn : Option Nat) (key : List UInt8) : Prop :=
  ∃ rest, key = entityId ++ rest ∧ before rest (bigEndian 8 (firstUnappliedGsn lastGsn)) = false

theorem mem_scanned {row : Row} : row ∈ scanned history entityId lastGsn ↔
    (∃ batch ∈ history.batches, ∃ otherId maxGsn,
      (batch.touching otherId).getLast? = some maxGsn ∧ row = batch.rowOf otherId maxGsn) ∧
    InScan entityId lastGsn row.1 := by
  simp only [scanned, RocksDB.entityGsnIterator, RocksDB.encodeEntityFlushKey,
    mem_rangeRows_prefix, history.rows_spec.2, FlushedBatch.mem_entityOps, InScan]

variable {batch : FlushedBatch} {otherId : List UInt8}

theorem touching_fits (member : batch ∈ history.batches) (otherId : List UInt8)
    : ∀ gsn ∈ batch.touching otherId, gsn < 256 ^ 8 :=
  fun _ listed => FlushHistory.lt_of_touches ⟨batch, member, FlushedBatch.mem_touching.mp listed⟩

theorem decode_rowOf (member : batch ∈ history.batches) {maxGsn : Nat}
    (last : (batch.touching otherId).getLast? = some maxGsn) :
    RocksDB.decodeGsnList (batch.rowOf otherId maxGsn).2 = some (batch.touching otherId) := by
  have filled : batch.touching otherId ≠ [] := List.ne_nil_of_mem (List.mem_of_getLast? last)
  exact RocksDB.decodeGsnList_encode filled (touching_fits member otherId)

theorem relevant_rowOf (member : batch ∈ history.batches) {maxGsn : Nat}
    (last : (batch.touching otherId).getLast? = some maxGsn) :
    relevant lastGsn (batch.rowOf otherId maxGsn) =
      (batch.touching otherId).filter fun gsn => unappliedGsn gsn lastGsn := by
  have decoded := decode_rowOf member last
  simp only [RocksDB.decodeGsnList] at decoded
  split at decoded
  · cases decoded
  · split at decoded
    · rw [relevant, Option.some.inj decoded]
    · cases decoded

theorem fetchRelevantGsns_eq (history : FlushHistory) (entityId : List UInt8)
    (lastGsn : Option Nat) : fetchRelevantGsns history.rows entityId lastGsn =
      some (((scanned history entityId lastGsn).flatMap (relevant lastGsn)).mergeSort (· ≤ ·)) := by
  have reads : ∀ row ∈ scanned history entityId lastGsn,
      (RocksDB.decodeGsnList row.2).map (·.filter fun gsn => unappliedGsn gsn lastGsn) =
        some (relevant lastGsn row) := by
    intro row member
    obtain ⟨⟨batch, inBatches, otherId, maxGsn, last, rfl⟩, _⟩ := mem_scanned.mp member
    rw [decode_rowOf inBatches last, relevant_rowOf inBatches last]
    rfl
  have lists := mapM_eq_map reads
  simp only [scanned] at lists
  simp only [fetchRelevantGsns, lists, Option.map_some, List.flatMap_def, scanned]

theorem le_of_getLast {gsn maxGsn : Nat} (listed : gsn ∈ batch.touching otherId)
    (last : (batch.touching otherId).getLast? = some maxGsn) : gsn ≤ maxGsn := by
  obtain ⟨init, split⟩ := List.getLast?_eq_some_iff.mp last
  have ascending := batch.touching_ascending otherId
  rw [split] at listed ascending
  cases List.mem_append.mp listed with
  | inl earlier =>
      exact Nat.le_of_lt ((List.pairwise_append.mp ascending).2.2 gsn earlier maxGsn (by simp))
  | inr final => exact Nat.le_of_eq (List.mem_singleton.mp final)

theorem own_scanned (member : batch ∈ history.batches) {gsn : Nat}
    (touches : batch.Touches gsn entityId) (unapplied : unappliedGsn gsn lastGsn = true) :
    ∃ maxGsn, (batch.touching entityId).getLast? = some maxGsn ∧
      batch.rowOf entityId maxGsn ∈ scanned history entityId lastGsn ∧
      gsn ∈ relevant lastGsn (batch.rowOf entityId maxGsn) := by
  have listed := FlushedBatch.mem_touching.mpr touches
  obtain ⟨maxGsn, last⟩ : ∃ maxGsn, (batch.touching entityId).getLast? = some maxGsn :=
    ⟨_, List.getLast?_eq_some_getLast (List.ne_nil_of_mem listed)⟩
  have atMost := le_of_getLast listed last
  have fits := touching_fits member entityId maxGsn (List.mem_of_getLast? last)
  have first : firstUnappliedGsn lastGsn ≤ gsn ∧ firstUnappliedGsn lastGsn < 256 ^ 8 := by
    cases lastGsn with
    | none => simp [firstUnappliedGsn]
    | some lastGsn =>
        simp only [unappliedGsn, decide_eq_true_eq] at unapplied
        simp only [firstUnappliedGsn, EntityStore.maxGsn]
        omega
  refine ⟨maxGsn, last, mem_scanned.mpr ⟨⟨batch, member, entityId, maxGsn, last, rfl⟩,
    bigEndian 8 maxGsn, rfl, ?_⟩, ?_⟩
  · rw [before_bigEndian fits first.2, decide_eq_false_iff_not]
    omega
  · rw [relevant_rowOf member last, List.mem_filter]
    exact ⟨listed, unapplied⟩

/-! ## Exactness -/

/-- The GSNs after the last applied one whose Action touches the entity, in order. -/
structure Exact (history : FlushHistory) (entityId : List UInt8) (lastGsn : Option Nat)
    (gsns : List Nat) : Prop where
  ascending : gsns.Pairwise (· < ·)
  members : ∀ gsn, gsn ∈ gsns ↔ history.Touches gsn entityId ∧ unappliedGsn gsn lastGsn = true

/-- A flush wrote a row of another entity that the scan meets and that is not applied whole. -/
def Strays (history : FlushHistory) (entityId : List UInt8) (lastGsn : Option Nat) : Prop :=
  ∃ batch ∈ history.batches, ∃ otherId maxGsn, otherId ≠ entityId ∧
    (batch.touching otherId).getLast? = some maxGsn ∧ unappliedGsn maxGsn lastGsn = true ∧
    InScan entityId lastGsn (RocksDB.encodeEntityFlushKey otherId maxGsn)

theorem own_of_relevant (noStray : ¬Strays history entityId lastGsn) {row : Row} {gsn : Nat}
    (member : row ∈ scanned history entityId lastGsn) (adds : gsn ∈ relevant lastGsn row) :
    unappliedGsn gsn lastGsn = true ∧ ∃ batch ∈ history.batches, ∃ maxGsn,
      batch.Touches gsn entityId ∧ (batch.touching entityId).getLast? = some maxGsn ∧
      row = batch.rowOf entityId maxGsn := by
  obtain ⟨⟨batch, inBatches, otherId, maxGsn, last, rfl⟩, inScan⟩ := mem_scanned.mp member
  rw [relevant_rowOf inBatches last, List.mem_filter] at adds
  obtain ⟨listed, unapplied⟩ := adds
  have atMost := le_of_getLast listed last
  have whole : unappliedGsn maxGsn lastGsn = true := by
    cases lastGsn with
    | none => rfl
    | some lastGsn =>
        simp only [unappliedGsn, decide_eq_true_eq] at unapplied ⊢
        omega
  have own : otherId = entityId := by
    by_contra different
    exact noStray ⟨batch, inBatches, otherId, maxGsn, different, last, whole, inScan⟩
  subst own
  exact ⟨unapplied, batch, inBatches, maxGsn, FlushedBatch.mem_touching.mp listed, last, rfl⟩

theorem scanned_ordered (history : FlushHistory) (entityId : List UInt8) (lastGsn : Option Nat) :
    InKeyOrder (scanned history entityId lastGsn) :=
  history.rows_spec.1.sublist List.filter_sublist

theorem nodup_relevant (noStray : ¬Strays history entityId lastGsn) :
    ((scanned history entityId lastGsn).flatMap (relevant lastGsn)).Nodup := by
  rw [List.nodup_flatMap]
  constructor
  · intro row member
    obtain ⟨⟨batch, inBatches, otherId, maxGsn, last, rfl⟩, _⟩ := mem_scanned.mp member
    rw [relevant_rowOf inBatches last]
    have distinct : (batch.touching otherId).Nodup :=
      (batch.touching_ascending otherId).imp fun less => Nat.ne_of_lt less
    exact distinct.filter _
  · refine (scanned_ordered history entityId lastGsn).imp_of_mem ?_
    intro row other member otherMember earlier gsn adds otherAdds
    obtain ⟨_, batch, inBatches, maxGsn, touches, last, rfl⟩ := own_of_relevant noStray member adds
    obtain ⟨_, second, inSecond, otherMax, otherTouches, otherLast, rfl⟩ :=
      own_of_relevant noStray otherMember otherAdds
    have same := history.batch_eq inBatches inSecond touches otherTouches
    subst same
    rw [last] at otherLast
    cases otherLast
    rw [before_irrefl] at earlier
    cases earlier

theorem exact_of_noStray (noStray : ¬Strays history entityId lastGsn) :
    Exact history entityId lastGsn
      (((scanned history entityId lastGsn).flatMap (relevant lastGsn)).mergeSort (· ≤ ·)) where
  ascending := by
    have sorted : (((scanned history entityId lastGsn).flatMap (relevant lastGsn)).mergeSort
        (· ≤ ·)).Pairwise fun a b => decide (a ≤ b) = true :=
      List.pairwise_mergeSort
        (fun a b c => by simp only [decide_eq_true_eq]; omega)
        (fun a b => by simp only [Bool.or_eq_true, decide_eq_true_eq]; omega) _
    have distinct := (List.mergeSort_perm
      ((scanned history entityId lastGsn).flatMap (relevant lastGsn)) (· ≤ ·)).nodup_iff.mpr
        (nodup_relevant noStray)
    exact (sorted.and distinct).imp fun both =>
      Nat.lt_of_le_of_ne (by simpa using both.1) both.2
  members := by
    intro gsn
    simp only [List.mem_mergeSort, List.mem_flatMap]
    constructor
    · rintro ⟨row, member, adds⟩
      obtain ⟨unapplied, batch, inBatches, _, touches, _⟩ := own_of_relevant noStray member adds
      exact ⟨⟨batch, inBatches, touches⟩, unapplied⟩
    · rintro ⟨⟨batch, inBatches, touches⟩, unapplied⟩
      obtain ⟨maxGsn, _, member, adds⟩ := own_scanned inBatches touches unapplied
      exact ⟨_, member, adds⟩

theorem not_exact_of_strays (strays : Strays history entityId lastGsn) :
    ¬Exact history entityId lastGsn
      (((scanned history entityId lastGsn).flatMap (relevant lastGsn)).mergeSort (· ≤ ·)) := by
  intro isExact
  obtain ⟨batch, inBatches, otherId, maxGsn, different, last, unapplied, inScan⟩ := strays
  have stray : batch.rowOf otherId maxGsn ∈ scanned history entityId lastGsn :=
    mem_scanned.mpr ⟨⟨batch, inBatches, otherId, maxGsn, last, rfl⟩, inScan⟩
  have listed := List.mem_of_getLast? last
  have adds : maxGsn ∈ relevant lastGsn (batch.rowOf otherId maxGsn) := by
    rw [relevant_rowOf inBatches last, List.mem_filter]
    exact ⟨listed, unapplied⟩
  have found := (isExact.members maxGsn).mp (by
    simp only [List.mem_mergeSort, List.mem_flatMap]
    exact ⟨_, stray, adds⟩)
  obtain ⟨⟨home, inHome, touches⟩, _⟩ := found
  obtain ⟨ownMax, ownLast, own, ownAdds⟩ := own_scanned inHome touches unapplied
  have distinct : ((scanned history entityId lastGsn).flatMap (relevant lastGsn)).Nodup := by
    rw [← (List.mergeSort_perm _ fun left right => decide (left ≤ right)).nodup_iff]
    exact isExact.ascending.imp fun less => Nat.ne_of_lt less
  have symmetric : Std.Symm (Function.onFun List.Disjoint (relevant lastGsn)) :=
    ⟨fun _ _ apart _ first second => apart second first⟩
  have disjoint := (List.nodup_flatMap.mp distinct).2
  have rowsDiffer : batch.rowOf otherId maxGsn ≠ home.rowOf entityId ownMax := by
    intro same
    have keys := congrArg Prod.fst same
    exact different (RocksDB.encodeEntityFlushKey_inj
      (touching_fits inBatches otherId maxGsn listed)
      (touching_fits inHome entityId ownMax (List.mem_of_getLast? ownLast)) keys).1
  exact disjoint.forall stray own rowsDiffer adds ownAdds

/-- A read finds exactly what it has to apply, unless the scan meets a row of another entity. -/
theorem fetchRelevantGsns_exact_iff (history : FlushHistory) (entityId : List UInt8)
    (lastGsn : Option Nat) :
    (∃ gsns, fetchRelevantGsns history.rows entityId lastGsn = some gsns ∧
      Exact history entityId lastGsn gsns) ↔ ¬Strays history entityId lastGsn := by
  rw [fetchRelevantGsns_eq]
  constructor
  · rintro ⟨gsns, found, isExact⟩ strays
    cases found
    exact not_exact_of_strays strays isExact
  · exact fun noStray => ⟨_, rfl, exact_of_noStray noStray⟩

/-- Two documents derived for one field, where the name of one type continues the other's. -/
def docId : List UInt8 := "e_derived_3_e_a4_bodydoc".toUTF8.data.toList

def docXId : List UInt8 := "e_derived_3_e_a4_bodydoc_x".toUTF8.data.toList

def derivedDocuments : FlushHistory where
  batches := [⟨1, [[docId], [docXId]]⟩]
  fits := by decide
  apart := List.pairwise_singleton _ _

/-- A cold read of the first document takes the Action of the second. -/
theorem derivedDocuments_stray :
    ¬∃ gsns, fetchRelevantGsns derivedDocuments.rows docId none = some gsns ∧
      Exact derivedDocuments docId none gsns := by
  have continues : docXId = docId ++ "_x".toUTF8.data.toList := by decide +kernel
  have strays : Strays derivedDocuments docId none := by
    refine ⟨_, List.mem_singleton_self _, docXId, 2, by decide +kernel, by decide +kernel, rfl,
      "_x".toUTF8.data.toList ++ bigEndian 8 2, ?_, by decide +kernel⟩
    rw [RocksDB.encodeEntityFlushKey, continues, List.append_assoc]
  rintro ⟨gsns, found, isExact⟩
  rw [fetchRelevantGsns_eq] at found
  cases found
  exact not_exact_of_strays strays isExact

end EntityStore

end Ebb.Server
