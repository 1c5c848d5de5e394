import Ebb.Foundation.LengthPrefix
import Ebb.Text.RunTree

namespace Ebb.Text

/-! The HLC and the actor of a run, read back out of its id. -/

def idSeparator : Char := ':'

def makeRunId (hlc actorId : String) : String :=
  hlc ++ String.singleton idSeparator ++ actorId

/-- What follows the HLC, up to the last split marker. -/
def stripSplit (rest : String) : String :=
  match lastIndexOf splitSeparator.toList rest.toList with
  | none => rest
  | some splitIndex => String.ofList (rest.toList.take splitIndex)

def parseRunId (id : String) : Option (String × String) :=
  if id = rootId then none
  else
    match id.toList.findIdx? (· == idSeparator) with
    | none | some 0 => none
    | some firstColon =>
        let hlc := String.ofList (id.toList.take firstColon)
        let rest := String.ofList (id.toList.drop (firstColon + 1))
        some (hlc, stripSplit rest)

/-- A nonempty string of decimal digits, as `format()` writes an HLC. -/
def DecimalHlc (hlc : String) : Prop := hlc ≠ "" ∧ hlc.toList.all Char.isDigit = true

/-! ## Split suffixes -/

theorem colon_notMem_numeral (offset : Int) : ':' ∉ (toString offset).toList := by
  have digits (number : Nat) : ':' ∉ Nat.toDigits 10 number := by
    intro member
    have digit := Nat.isDigit_of_mem_toDigits (by decide) (by decide) member
    simp at digit
  cases offset with
  | ofNat number =>
      change ':' ∉ number.repr.toList
      rw [Nat.toList_repr]
      exact digits number
  | negSucc number =>
      change ':' ∉ ("-" ++ (number + 1).repr).toList
      simp [digits]

theorem lastIndexOf_splitSuffix (offset : Int) :
    lastIndexOf splitSeparator.toList (splitSeparator.toList ++ (toString offset).toList) =
      some 0 := by
  have single : lastIndexOf splitSeparator.toList ('s' :: ':' :: (toString offset).toList) =
      none := by
    rw [lastIndexOf_eq_none_iff]
    intro occurs
    have numeral := List.count_eq_zero_of_not_mem (colon_notMem_numeral offset)
    have colons := occurs.sublist.count_le ':'
    rw [List.count_cons, List.count_cons, numeral] at colons
    exact absurd colons (by decide)
  have whole : splitSeparator.toList ++ (toString offset).toList =
      ':' :: 's' :: ':' :: (toString offset).toList := by simp [splitSeparator]
  rw [whole, lastIndexOf, single]
  simp [splitSeparator]

theorem stripSplit_makeSplitId (rest : String) (offset : Int) :
    stripSplit (makeSplitId rest offset) = rest := by
  have last : lastIndexOf splitSeparator.toList (makeSplitId rest offset).toList =
      some rest.toList.length := by
    rw [makeSplitId, String.toList_append, String.toList_append, List.append_assoc,
      lastIndexOf_append (lastIndexOf_splitSuffix offset), Nat.add_zero]
  rw [stripSplit, last]
  simp [makeSplitId]

theorem stripSplit_of_plain {rest : String} (plain : ¬ splitSeparator.toList <:+: rest.toList) :
    stripSplit rest = rest := by
  rw [stripSplit, lastIndexOf_eq_none_iff.mpr plain]

/-! ## Reading an id -/

theorem parseRunId_makeRunId {hlc : String} (decimal : DecimalHlc hlc) (rest : String) :
    parseRunId (makeRunId hlc rest) = some (hlc, stripSplit rest) := by
  have separated : (makeRunId hlc rest).toList = hlc.toList ++ idSeparator :: rest.toList := by
    simp [makeRunId]
  have notRoot : makeRunId hlc rest ≠ rootId := by
    intro same
    have member : idSeparator ∈ rootId.toList := by
      rw [← same, separated]
      simp
    exact absurd member (by decide)
  have absent : hlc.toList.findIdx? (· == idSeparator) = none := by
    rw [List.findIdx?_eq_none_iff]
    intro char member
    have digit := List.all_eq_true.mp decimal.2 char member
    by_contra colon
    rw [Bool.not_eq_false, beq_iff_eq] at colon
    rw [colon] at digit
    exact absurd digit (by decide)
  have place : (makeRunId hlc rest).toList.findIdx? (· == idSeparator) =
      some hlc.toList.length := by
    rw [separated, List.findIdx?_append, absent, List.findIdx?_cons]
    simp
  have filled : hlc.toList.length ≠ 0 := by
    intro empty
    exact decimal.1 (String.toList_inj.mp (List.eq_nil_of_length_eq_zero empty))
  obtain ⟨count, length⟩ := Nat.exists_eq_succ_of_ne_zero filled
  rw [parseRunId, if_neg notRoot, place, length]
  simp only [separated, ← length]
  simp

theorem foldl_makeSplitId (hlc : String) (offsets : List Int) (actorId : String) :
    offsets.foldl makeSplitId (makeRunId hlc actorId) =
      makeRunId hlc (offsets.foldl makeSplitId actorId) := by
  induction offsets generalizing actorId with
  | nil => rfl
  | cons offset rest induction =>
      have inner : makeSplitId (makeRunId hlc actorId) offset =
          makeRunId hlc (makeSplitId actorId offset) := by
        simp [makeSplitId, makeRunId, String.append_assoc]
      rw [List.foldl_cons, inner, induction, List.foldl_cons]

theorem length_le_foldl_makeSplitId (offsets : List Int) (actorId : String) :
    actorId.length + offsets.length ≤ (offsets.foldl makeSplitId actorId).length := by
  induction offsets generalizing actorId with
  | nil => simp
  | cons offset rest induction =>
      have longer := induction (makeSplitId actorId offset)
      have marker : splitSeparator.length = 3 := by decide
      simp only [makeSplitId, String.length_append, List.foldl_cons, List.length_cons] at *
      omega

/-- An id that was split at most once gives back the HLC and the actor it was made from. Of
an id split again only the last suffix is taken off. -/
theorem parseRunId_splits_iff {hlc actorId : String} (decimal : DecimalHlc hlc)
    (plain : ¬ splitSeparator.toList <:+: actorId.toList) (offsets : List Int) :
    parseRunId (offsets.foldl makeSplitId (makeRunId hlc actorId)) = some (hlc, actorId) ↔
      offsets.length ≤ 1 := by
  rw [foldl_makeSplitId, parseRunId_makeRunId decimal, Option.some.injEq, Prod.mk.injEq]
  rcases List.eq_nil_or_concat offsets with rfl | ⟨earlier, offset, rfl⟩
  · simp [stripSplit_of_plain plain]
  · rw [List.concat_eq_append, List.foldl_append, List.foldl_cons, List.foldl_nil,
      stripSplit_makeSplitId, List.length_append]
    cases earlier with
    | nil => simp
    | cons first others =>
        have longer := length_le_foldl_makeSplitId (first :: others) actorId
        refine iff_of_false ?_ (by simp)
        intro same
        rw [same.2, List.length_cons] at longer
        omega

theorem peer_plain : ¬ splitSeparator.toList <:+: "peer-A".toList :=
  lastIndexOf_eq_none_iff.mp (by decide)

theorem parseRunId_splits_peer :
    parseRunId ([3].foldl makeSplitId (makeRunId "1000" "peer-A")) = some ("1000", "peer-A") :=
  (@parseRunId_splits_iff "1000" "peer-A" ⟨by decide, by decide⟩ peer_plain [3]).mpr (by decide)

theorem not_parseRunId_splits : ¬ ∀ (hlc actorId : String) (offsets : List Int), DecimalHlc hlc →
    ¬ splitSeparator.toList <:+: actorId.toList →
      parseRunId (offsets.foldl makeSplitId (makeRunId hlc actorId)) = some (hlc, actorId) := by
  intro parses
  have twice := parses "1000" "peer-A" [3, 1] ⟨by decide, by decide⟩ peer_plain
  exact absurd twice (by decide)

end Ebb.Text
