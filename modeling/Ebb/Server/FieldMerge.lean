import Ebb.Core.Action
import Ebb.Core.FieldPaths
import Mathlib.Data.List.TakeWhile

namespace Ebb.Server.FieldMerge

/-! The server's copy of the field merge rule, and its agreement with the
client's on values whose leaves carry a `NanoId`. -/

/-- Binaries compare byte by byte, which on UTF-8 is the order of code points. -/
def codePoints (text : String) : List Nat := text.toList.map Char.toNat

def hlcValue : Option HLCTimestamp → Nat
  | none => 0
  | some hlc => hlc

def compareHlc (left right : Option HLCTimestamp) : Ordering :=
  if hlcValue right < hlcValue left then .gt
  else if hlcValue left < hlcValue right then .lt
  else .eq

def tiebreakWinner (incoming existing : FieldLeaf V) : FieldLeaf V :=
  if !(codePoints incoming.updateId).lex (codePoints existing.updateId) then incoming
  else existing

mutual

def merge : Option (FieldValue V) → FieldValue V → FieldValue V
  | none, incoming => incoming
  | some (.map existing), .map incoming => .map (mergeMaps existing incoming)
  | some (.map _), .leaf incoming => .leaf incoming
  | some (.leaf _), .map incoming => .map incoming
  | some (.leaf existing), .leaf incoming =>
      match compareHlc incoming.hlc existing.hlc with
      | .gt => .leaf incoming
      | .lt => .leaf existing
      | .eq => .leaf (tiebreakWinner incoming existing)

def mergeMaps : Fields V → Fields V → Fields V
  | existing, [] => existing
  | existing, (key, value) :: rest =>
      mergeMaps (setEntry key (merge (existing.lookup key) value) existing) rest

end

mutual

def stamp (updateId : String) : FieldValue V → FieldValue V
  | .leaf leaf => if leaf.updateId ≠ "" then .leaf leaf else .leaf { leaf with updateId }
  | .map entries => .map (stampEntries updateId entries)

def stampEntries (updateId : String) : Fields V → Fields V
  | [] => []
  | (key, value) :: rest => (key, stamp updateId value) :: stampEntries updateId rest

end

theorem keys_stampEntries (updateId : String) (fields : Fields V) :
    (stampEntries updateId fields).map Prod.fst = fields.map Prod.fst := by
  induction fields with
  | nil => rfl
  | cons entry rest induction => rw [stampEntries, List.map_cons, List.map_cons, induction]

mutual

theorem stamp_keyed (updateId : String) :
    ∀ {value : FieldValue V}, value.Keyed → (stamp updateId value).Keyed
  | .leaf leaf, _ => by
      rw [stamp]
      split <;> trivial
  | .map entries, keyed => by
      rw [stamp]
      exact ⟨(keys_stampEntries updateId entries).symm ▸ keyed.1,
        stampEntries_keyed updateId keyed.2⟩

theorem stampEntries_keyed (updateId : String) :
    ∀ {fields : Fields V}, fieldsKeyed fields → fieldsKeyed (stampEntries updateId fields)
  | [], _ => trivial
  | _ :: _, keyed => ⟨stamp_keyed updateId keyed.1, stampEntries_keyed updateId keyed.2⟩

end

def leafWinner (existing incoming : FieldLeaf V) : FieldLeaf V :=
  match compareHlc incoming.hlc existing.hlc with
  | .gt => incoming
  | .lt => existing
  | .eq => tiebreakWinner incoming existing

mutual

theorem merge_eq_mergeBy : ∀ (existing : Option (FieldValue V)) (incoming : FieldValue V),
    merge existing incoming = mergeBy leafWinner existing incoming
  | none, _ => by rw [merge, mergeBy]
  | some (.map _), .leaf _ => by rw [merge, mergeBy]
  | some (.leaf _), .map _ => by rw [merge, mergeBy]
  | some (.map existing), .map incoming => by
      rw [merge, mergeBy, mergeMaps_eq_mergeEntriesBy existing incoming]
  | some (.leaf existing), .leaf incoming => by
      rw [merge, mergeBy, leafWinner]
      split <;> rfl

theorem mergeMaps_eq_mergeEntriesBy : ∀ existing incoming : Fields V,
    mergeMaps existing incoming = mergeEntriesBy leafWinner existing incoming
  | _, [] => by rw [mergeMaps, mergeEntriesBy]
  | existing, (key, value) :: rest => by
      rw [mergeMaps, mergeEntriesBy, merge_eq_mergeBy _ value, mergeMaps_eq_mergeEntriesBy _ rest]

end

/-! ## Agreement with the client's merge -/

private theorem alphanumeric_lt {char : Char} (holds : isAlphanumeric char = true) :
    char.toNat < 0x10000 := by
  simp only [isAlphanumeric, isLowerLetter, Bool.or_eq_true, Bool.and_eq_true,
    decide_eq_true_eq, Char.le_def, UInt32.le_iff_toNat_le] at holds
  have bounds : ('z' : Char).val.toNat = 122 ∧ ('Z' : Char).val.toNat = 90 ∧
      ('9' : Char).val.toNat = 57 := by decide
  have same : char.toNat = char.val.toNat := rfl
  omega

theorem nanoId_char_lt {id : String} (wellFormed : isNanoId id = true) {char : Char}
    (member : char ∈ id.toList) : char.toNat < 0x10000 := by
  simp only [isNanoId, Bool.and_eq_true, decide_eq_true_eq] at wellFormed
  obtain ⟨⟨⟨-, underscore⟩, -⟩, suffix⟩ := wellFormed
  have split : id.toList.takeWhile isLowerLetter ++ id.toList.dropWhile isLowerLetter =
      id.toList := List.takeWhile_append_dropWhile
  rw [← split, List.mem_append] at member
  rcases member with lower | member
  · have holds := List.mem_takeWhile_imp lower
    exact alphanumeric_lt (by simp [isAlphanumeric, holds])
  · obtain ⟨rest, equal⟩ : ∃ rest, id.toList.dropWhile isLowerLetter = '_' :: rest := by
      cases split : id.toList.dropWhile isLowerLetter with
      | nil => simp [split] at underscore
      | cons head rest => exact ⟨rest, by simpa [split] using underscore⟩
    rw [equal] at member suffix
    rcases List.mem_cons.mp member with head | member
    · subst head
      decide
    · exact alphanumeric_lt (List.all_eq_true.mp suffix char member)

theorem codeUnits_eq_codePoints {id : String} (wellFormed : isNanoId id = true) :
    codeUnits id = codePoints id := by
  have units : ∀ chars : List Char, (∀ char ∈ chars, char.toNat < 0x10000) →
      (chars.flatMap fun char =>
        if char.toNat < 0x10000 then [char.toNat]
        else
          [0xD800 + (char.toNat - 0x10000) / 0x400,
            0xDC00 + (char.toNat - 0x10000) % 0x400]) = chars.map Char.toNat := by
    intro chars small
    induction chars with
    | nil => rfl
    | cons head tail induction =>
        rw [List.flatMap_cons, List.map_cons, if_pos (small head List.mem_cons_self),
          induction fun char member => small char (List.mem_cons_of_mem head member)]
        rfl
  exact units id.toList fun char => nanoId_char_lt wellFormed

theorem ne_empty_of_isNanoId {id : String} (wellFormed : isNanoId id = true) : id ≠ "" := by
  rintro rfl
  simp [isNanoId] at wellFormed

theorem merge_leaf_eq {existing incoming : FieldLeaf V}
    (existingWellFormed : isNanoId existing.updateId = true)
    (incomingWellFormed : isNanoId incoming.updateId = true) :
    merge (some (.leaf existing)) (.leaf incoming) = .leaf (mergeLeaf existing incoming) := by
  have time : ∀ leaf : FieldLeaf V, hlcValue leaf.hlc = leaf.time := by
    intro leaf
    cases same : leaf.hlc <;> simp [hlcValue, FieldLeaf.time, same]
  simp only [merge, compareHlc, time, mergeLeaf, codeUnitsGe, tiebreakWinner,
    codeUnits_eq_codePoints existingWellFormed, codeUnits_eq_codePoints incomingWellFormed]
  by_cases newer : existing.time < incoming.time
  · simp [newer]
  · by_cases older : incoming.time < existing.time
    · simp [newer, older]
    · simp only [newer, older, if_false]

mutual

theorem stamp_eq_self (updateId : String) :
    ∀ {value : FieldValue V}, value.WellFormed → stamp updateId value = value
  | .leaf _, wellFormed => if_pos (ne_empty_of_isNanoId wellFormed)
  | .map _, wellFormed => congrArg FieldValue.map (stampEntries_eq_self updateId wellFormed)

theorem stampEntries_eq_self (updateId : String) :
    ∀ {fields : Fields V}, fieldsWellFormed fields → stampEntries updateId fields = fields
  | [], _ => rfl
  | (key, _) :: _, wellFormed => by
      rw [stampEntries, stamp_eq_self updateId wellFormed.1,
        stampEntries_eq_self updateId wellFormed.2]

end

mutual

theorem merge_wellFormed :
    ∀ {existing : Option (FieldValue V)} {incoming : FieldValue V},
      (∀ value, existing = some value → value.WellFormed) → incoming.WellFormed →
      merge existing incoming = mergeBy mergeLeaf existing incoming ∧
        (merge existing incoming).WellFormed
  | none, .leaf _, _, wellFormed => by
      simpa only [merge, mergeBy, true_and] using wellFormed
  | none, .map _, _, wellFormed => by
      simpa only [merge, mergeBy, true_and] using wellFormed
  | some (.leaf existing), .leaf incoming, existingWellFormed, wellFormed => by
      have existingId : isNanoId existing.updateId = true := existingWellFormed _ rfl
      rw [merge_leaf_eq existingId wellFormed, mergeBy]
      exact ⟨rfl, mergeLeaf_wellFormed existingId wellFormed⟩
  | some (.leaf _), .map _, _, wellFormed => by
      simpa only [merge, mergeBy, true_and] using wellFormed
  | some (.map _), .leaf _, _, wellFormed => by
      simpa only [merge, mergeBy, true_and] using wellFormed
  | some (.map existing), .map incoming, existingWellFormed, wellFormed => by
      have step := mergeMaps_wellFormed (existingWellFormed _ rfl) wellFormed
      rw [merge, mergeBy, ← step.1]
      exact ⟨rfl, step.2⟩

theorem mergeMaps_wellFormed :
    ∀ {existing incoming : Fields V},
      fieldsWellFormed existing → fieldsWellFormed incoming →
      mergeMaps existing incoming = mergeEntriesBy mergeLeaf existing incoming ∧
        fieldsWellFormed (mergeMaps existing incoming)
  | _, [], existingWellFormed, _ => by
      simpa only [mergeMaps, mergeEntriesBy, true_and] using existingWellFormed
  | existing, (key, value) :: rest, existingWellFormed, wellFormed => by
      have held : ∀ previous, existing.lookup key = some previous → previous.WellFormed :=
        fun _ found => fieldsWellFormed_lookup existingWellFormed found
      have head := merge_wellFormed held wellFormed.1
      rw [mergeMaps, mergeEntriesBy, ← head.1]
      exact mergeMaps_wellFormed
        (fieldsWellFormed_setEntry existingWellFormed key head.2) wellFormed.2

end

theorem mergeMaps_eq_mergeEntries {existing incoming : Fields V}
    (existingWellFormed : fieldsWellFormed existing) (wellFormed : fieldsWellFormed incoming)
    (keyed : (FieldValue.map incoming).Keyed)
    (owned : OwnsNames (some (.map existing)) (.map incoming)) :
    mergeMaps existing incoming = mergeEntries existing incoming := by
  rw [(mergeMaps_wellFormed existingWellFormed wellFormed).1,
    mergeEntries_eq_mergeEntriesBy existing incoming keyed owned]

end Ebb.Server.FieldMerge
