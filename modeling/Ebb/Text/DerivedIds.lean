import Ebb.Core.CodeUnits
import Ebb.Foundation.Decimal
import Ebb.Foundation.LengthPrefix

namespace Ebb.Text

/-! The ids derived for the document and the relationship behind a collaborative-text
field, and the ids that are minted. A string is a list of code units. -/

abbrev JsString := List UInt16

def units (text : String) : JsString := (codeUnits text).map UInt16.ofNat

/-- `${number}` -/
def numeral (number : Nat) : JsString :=
  (Nat.toDigits 10 number).map fun digit => UInt16.ofNat digit.toNat

def underscore : UInt16 := 95

example : numeral 205 = units "205" := by decide

def derivedKey (parentId field : JsString) : JsString :=
  numeral parentId.length ++ underscore :: parentId ++ numeral field.length ++ underscore :: field

def derivedDocumentId (parentId field documentType : JsString) : JsString :=
  units "e_derived_" ++ derivedKey parentId field ++ documentType

def derivedRelationshipId (parentId field : JsString) : JsString :=
  units "rel_derived_" ++ derivedKey parentId field

example : derivedRelationshipId (units "e_abc") (units "body") =
    units "rel_derived_5_e_abc4_body" := by decide

def idAlphabet : JsString := units "abcdefghijklmnopqrstuvwxyz0123456789"

/-- What `customAlphabet(idAlphabet, 16)` draws. -/
structure Nanoid where
  units : JsString
  length : units.length = 16
  drawn : ∀ unit ∈ units, unit ∈ idAlphabet

def generateId (idPrefix : JsString) (nanoid : Nanoid) : JsString :=
  idPrefix ++ underscore :: nanoid.units

theorem toNat_of_mem_toDigits {number : Nat} {digit : Char}
    (member : digit ∈ Nat.toDigits 10 number) :
    48 ≤ digit.toNat ∧ digit.toNat ≤ 57 := by
  have isDigit := Nat.isDigit_of_mem_toDigits (by decide) (by decide) member
  obtain ⟨small, written⟩ := Decimal.digitChar_digitValue isDigit
  rw [← written, Nat.toNat_digitChar_of_lt_ten small]
  omega

theorem underscore_notMem_numeral (number : Nat) : underscore ∉ numeral number := by
  simp only [numeral, List.mem_map, not_exists, not_and]
  intro digit member equal
  have bounds := toNat_of_mem_toDigits member
  have same := congrArg UInt16.toNat equal
  simp only [UInt16.toNat_ofNat', underscore, UInt16.reduceToNat] at same
  omega

theorem toDigits_of_numeral (number : Nat) :
    (numeral number).map (fun unit => Char.ofNat unit.toNat) = Nat.toDigits 10 number := by
  rw [numeral, List.map_map, List.map_congr_left, List.map_id]
  intro digit member
  have bounds := toNat_of_mem_toDigits member
  have fits : digit.toNat % 65536 = digit.toNat := by omega
  simp [UInt16.toNat_ofNat', fits]

theorem numeral_injective : Function.Injective numeral := by
  intro left right equal
  have digits := toDigits_of_numeral left
  rw [equal, toDigits_of_numeral right] at digits
  rw [← @Nat.ofDigitChars_ten_toDigits left, ← digits, Nat.ofDigitChars_ten_toDigits]

/-! ## What the ids determine -/

theorem derivedKey_eq (parentId field rest : JsString) :
    derivedKey parentId field ++ rest = lengthPrefixed numeral underscore parentId ++
      (lengthPrefixed numeral underscore field ++ rest) := by
  simp [derivedKey, lengthPrefixed]

theorem derivedKey_append_inj {parentId field rest otherId otherField others : JsString}
    (equal : derivedKey parentId field ++ rest = derivedKey otherId otherField ++ others) :
    parentId = otherId ∧ field = otherField ∧ rest = others := by
  rw [derivedKey_eq, derivedKey_eq] at equal
  have parents := lengthPrefixed_append_inj underscore_notMem_numeral numeral_injective equal
  have fields := lengthPrefixed_append_inj underscore_notMem_numeral numeral_injective parents.2
  exact ⟨parents.1, fields⟩

theorem derivedDocumentId_inj {parentId field documentType otherId otherField otherType : JsString}
    (equal : derivedDocumentId parentId field documentType =
      derivedDocumentId otherId otherField otherType) :
    parentId = otherId ∧ field = otherField ∧ documentType = otherType := by
  simp only [derivedDocumentId, List.append_assoc, List.append_cancel_left_eq] at equal
  exact derivedKey_append_inj equal

theorem derivedRelationshipId_inj {parentId field otherId otherField : JsString}
    (equal : derivedRelationshipId parentId field = derivedRelationshipId otherId otherField) :
    parentId = otherId ∧ field = otherField := by
  simp only [derivedRelationshipId, List.append_cancel_left_eq] at equal
  have keys := @derivedKey_append_inj parentId field [] otherId otherField []
    (by simpa using equal)
  exact ⟨keys.1, keys.2.1⟩

theorem count_underscore_derived (parentId field documentType : JsString) :
    2 ≤ (derivedDocumentId parentId field documentType).count underscore ∧
      2 ≤ (derivedRelationshipId parentId field).count underscore := by
  have document : (units "e_derived_").count underscore = 2 := by decide
  have relationship : (units "rel_derived_").count underscore = 2 := by decide
  simp only [derivedDocumentId, derivedRelationshipId, List.count_append]
  omega

theorem count_underscore_generateId {idPrefix : JsString} (plain : underscore ∉ idPrefix)
    (nanoid : Nanoid) : (generateId idPrefix nanoid).count underscore = 1 := by
  have letters : underscore ∉ idAlphabet := by decide
  have drawn : underscore ∉ nanoid.units := fun member => letters (nanoid.drawn _ member)
  simp [generateId, List.count_append, List.count_eq_zero_of_not_mem plain,
    List.count_eq_zero_of_not_mem drawn]

/-- Derived ids determine what they are derived from, and no id minted under a prefix
without an underscore is one of them. -/
theorem derived_ids_apart {idPrefix : JsString} (plain : underscore ∉ idPrefix)
    (nanoid : Nanoid) :
    (∀ parentId field documentType otherId otherField otherType,
      derivedDocumentId parentId field documentType =
        derivedDocumentId otherId otherField otherType →
          parentId = otherId ∧ field = otherField ∧ documentType = otherType) ∧
    (∀ parentId field otherId otherField,
      derivedRelationshipId parentId field = derivedRelationshipId otherId otherField →
        parentId = otherId ∧ field = otherField) ∧
    (∀ parentId field documentType,
      generateId idPrefix nanoid ≠ derivedDocumentId parentId field documentType) ∧
    ∀ parentId field, generateId idPrefix nanoid ≠ derivedRelationshipId parentId field := by
  have minted := count_underscore_generateId plain nanoid
  refine ⟨?_, ?_, ?_, ?_⟩
  · intro parentId field documentType otherId otherField otherType equal
    exact derivedDocumentId_inj equal
  · intro parentId field otherId otherField equal
    exact derivedRelationshipId_inj equal
  · intro parentId field documentType equal
    have derived := (count_underscore_derived parentId field documentType).1
    rw [← equal, minted] at derived
    omega
  · intro parentId field equal
    have derived := (count_underscore_derived parentId field []).2
    rw [← equal, minted] at derived
    omega

def drawnLetters : Nanoid where
  units := units "abcdefghijklmnop"
  length := by decide
  drawn := by
    have all : (units "abcdefghijklmnop").all fun unit => decide (unit ∈ idAlphabet) := by decide
    intro unit member
    exact of_decide_eq_true (List.all_eq_true.mp all unit member)

/-- Relationship rows are minted under `rel`. -/
theorem derived_ids_apart_rel :
    underscore ∉ units "rel" ∧ generateId (units "rel") drawnLetters ≠
      derivedRelationshipId (units "e_abc") (units "body") := by
  have plain : underscore ∉ units "rel" := by decide
  exact ⟨plain, (derived_ids_apart plain drawnLetters).2.2.2 _ _⟩

/-- A prefix may be any string, and one of the derived form meets a derived id. -/
theorem underscored_prefix_collides :
    ¬ ∀ idPrefix nanoid parentId field,
      generateId idPrefix nanoid ≠ derivedRelationshipId parentId field := by
  intro apart
  exact apart (units "rel_derived_1_p16") drawnLetters (units "p") drawnLetters.units (by decide)

end Ebb.Text
