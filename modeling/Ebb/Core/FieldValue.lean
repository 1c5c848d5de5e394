import Ebb.Foundation.OrderedMap

namespace Ebb

/-! Field values and the wire's last-writer-wins merge, as
`packages/core/src/types/action.ts` defines them. -/

/-- A packed hybrid logical clock reading. The wire carries it as a decimal
string and every comparison reads that string as an integer. -/
abbrev HLCTimestamp := Nat

/-- The code units of a string, which the client's string operators compare. -/
def codeUnits (text : String) : List Nat :=
  text.toList.flatMap fun char =>
    if char.toNat < 0x10000 then [char.toNat]
    else
      [0xD800 + (char.toNat - 0x10000) / 0x400, 0xDC00 + (char.toNat - 0x10000) % 0x400]

/-- `left >= right` on two client strings. -/
def codeUnitsGe (left right : String) : Bool :=
  !(codeUnits left).lex (codeUnits right)

theorem codeUnitsGe_iff {left right : String} :
    codeUnitsGe left right = true ↔ List.le (codeUnits right) (codeUnits left) := by
  rw [codeUnitsGe, Bool.not_eq_true', List.lex_eq_false_iff_ge]
  rfl

def isLowerLetter (char : Char) : Bool := 'a' ≤ char && char ≤ 'z'

def isAlphanumeric (char : Char) : Bool :=
  isLowerLetter char || ('A' ≤ char && char ≤ 'Z') || ('0' ≤ char && char ≤ '9')

/-- The pattern `^[a-z]+_[a-zA-Z0-9]+$` of `NanoIdSchema`. -/
def isNanoId (id : String) : Bool :=
  let chars := id.toList
  let suffix := chars.dropWhile isLowerLetter
  chars.takeWhile isLowerLetter ≠ [] && suffix.head? = some '_' &&
    suffix.tail ≠ [] && suffix.tail.all isAlphanumeric

example : isNanoId "upd_a1" = true := by decide

/-! ## Field values -/

/-- A leaf field value: the object carrying `value`. -/
structure FieldLeaf (V : Type) where
  value : V
  updateId : String
  hlc : Option HLCTimestamp
deriving DecidableEq

/-- A leaf, or nested field values merged key by key. -/
inductive FieldValue (V : Type) where
  | leaf (leaf : FieldLeaf V)
  | map (entries : List (String × FieldValue V))

abbrev Fields (V : Type) := List (String × FieldValue V)

/-- An absent timestamp compares as the empty string, which is zero. -/
def FieldLeaf.time (leaf : FieldLeaf V) : HLCTimestamp := leaf.hlc.getD 0

/-- The leaf rule: the higher timestamp wins, and a tie goes to the incoming
leaf unless the existing one has the greater update id. -/
def mergeLeaf (existing incoming : FieldLeaf V) : FieldLeaf V :=
  if existing.time < incoming.time then incoming
  else if incoming.time < existing.time then existing
  else if codeUnitsGe incoming.updateId existing.updateId then incoming
  else existing

/-- The names that a plain object inherits from `Object.prototype`. -/
def objectPrototype : List String :=
  ["constructor", "__defineGetter__", "__defineSetter__", "hasOwnProperty", "__lookupGetter__",
    "__lookupSetter__", "isPrototypeOf", "propertyIsEnumerable", "toString", "valueOf",
    "__proto__", "toLocaleString"]

/-- Whether a value is written under a name the object does not hold itself. What is read
under an inherited name is a function, which has neither timestamp nor update id and is no
map: of the leaves only one with a later timestamp takes its place. (`__proto__` is kept as a
name like the others; an assignment makes it the prototype, so the conditions on names leave
it out.) -/
def FieldValue.writesNew (key : String) : FieldValue V → Bool
  | .leaf content => key ∉ objectPrototype || decide (0 < content.time)
  | .map _ => true

mutual

def mergeFieldValue : Option (FieldValue V) → FieldValue V → FieldValue V
  | none, incoming => incoming
  | some (.leaf existing), .leaf incoming => .leaf (mergeLeaf existing incoming)
  | some (.map existing), .map incoming => .map (mergeEntries existing incoming)
  | some (.map _), .leaf incoming => .leaf incoming
  | some (.leaf _), .map incoming => .map incoming

def mergeEntries : Fields V → Fields V → Fields V
  | existing, [] => existing
  | existing, (key, value) :: rest =>
      if (existing.lookup key).isSome || value.writesNew key then
        mergeEntries (setEntry key (mergeFieldValue (existing.lookup key) value) existing) rest
      else mergeEntries existing rest

end

/-! ## Well-formed values

The field schema requires a `NanoId` on every leaf. -/

mutual

def FieldValue.WellFormed : FieldValue V → Prop
  | .leaf leaf => isNanoId leaf.updateId = true
  | .map entries => fieldsWellFormed entries

def fieldsWellFormed : Fields V → Prop
  | [] => True
  | (_, value) :: rest => value.WellFormed ∧ fieldsWellFormed rest

end

theorem fieldsWellFormed_lookup {fields : Fields V} (wellFormed : fieldsWellFormed fields)
    {key : String} {value : FieldValue V} (found : fields.lookup key = some value) :
    value.WellFormed := by
  induction fields with
  | nil => simp at found
  | cons entry rest induction =>
      obtain ⟨head, existing⟩ := entry
      rw [lookup_cons_eq] at found
      split at found
      · exact Option.some.inj found ▸ wellFormed.1
      · exact induction wellFormed.2 found

theorem fieldsWellFormed_setEntry {fields : Fields V} (wellFormed : fieldsWellFormed fields)
    (key : String) {value : FieldValue V} (valueWellFormed : value.WellFormed) :
    fieldsWellFormed (setEntry key value fields) := by
  induction fields with
  | nil => exact ⟨valueWellFormed, trivial⟩
  | cons entry rest induction =>
      obtain ⟨head, existing⟩ := entry
      simp only [setEntry]
      split
      · exact ⟨valueWellFormed, wellFormed.2⟩
      · exact ⟨wellFormed.1, induction wellFormed.2⟩

theorem mergeLeaf_wellFormed {existing incoming : FieldLeaf V}
    (existingWellFormed : isNanoId existing.updateId = true)
    (incomingWellFormed : isNanoId incoming.updateId = true) :
    isNanoId (mergeLeaf existing incoming).updateId = true := by
  unfold mergeLeaf
  split_ifs <;> assumption

end Ebb
