namespace Ebb

/-! Decoded JSON terms and the operators the server reads them with. An object
lists its entries under distinct keys in ascending order, so that equal objects
are equal terms; a float is given by its bits. -/

inductive Term where
  | null
  | bool (value : Bool)
  | integer (value : Int)
  | float (bits : UInt64)
  | string (value : String)
  | list (items : List Term)
  | map (entries : List (String × Term))

namespace Term

mutual
def decEq : (left right : Term) → Decidable (left = right)
  | .null, .null => .isTrue rfl
  | .bool left, .bool right => decidable_of_iff (left = right) (by simp)
  | .integer left, .integer right => decidable_of_iff (left = right) (by simp)
  | .float left, .float right => decidable_of_iff (left = right) (by simp)
  | .string left, .string right => decidable_of_iff (left = right) (by simp)
  | .list left, .list right =>
      have := decEqItems left right
      decidable_of_iff (left = right) (by simp)
  | .map left, .map right =>
      have := decEqEntries left right
      decidable_of_iff (left = right) (by simp)
  | .null, .bool _ | .null, .integer _ | .null, .float _ | .null, .string _
  | .null, .list _ | .null, .map _ => .isFalse nofun
  | .bool _, .null | .bool _, .integer _ | .bool _, .float _ | .bool _, .string _
  | .bool _, .list _ | .bool _, .map _ => .isFalse nofun
  | .integer _, .null | .integer _, .bool _ | .integer _, .float _ | .integer _, .string _
  | .integer _, .list _ | .integer _, .map _ => .isFalse nofun
  | .float _, .null | .float _, .bool _ | .float _, .integer _ | .float _, .string _
  | .float _, .list _ | .float _, .map _ => .isFalse nofun
  | .string _, .null | .string _, .bool _ | .string _, .integer _ | .string _, .float _
  | .string _, .list _ | .string _, .map _ => .isFalse nofun
  | .list _, .null | .list _, .bool _ | .list _, .integer _ | .list _, .float _
  | .list _, .string _ | .list _, .map _ => .isFalse nofun
  | .map _, .null | .map _, .bool _ | .map _, .integer _ | .map _, .float _
  | .map _, .string _ | .map _, .list _ => .isFalse nofun

def decEqItems : (left right : List Term) → Decidable (left = right)
  | [], [] => .isTrue rfl
  | left :: leftRest, right :: rightRest =>
      have := decEq left right
      have := decEqItems leftRest rightRest
      decidable_of_iff (left = right ∧ leftRest = rightRest) (by simp)
  | [], _ :: _ | _ :: _, [] => .isFalse nofun

def decEqEntries : (left right : List (String × Term)) → Decidable (left = right)
  | [], [] => .isTrue rfl
  | (leftKey, left) :: leftRest, (rightKey, right) :: rightRest =>
      have := decEq left right
      have := decEqEntries leftRest rightRest
      decidable_of_iff (leftKey = rightKey ∧ left = right ∧ leftRest = rightRest)
        (by simp [and_assoc])
  | [], _ :: _ | _ :: _, [] => .isFalse nofun
end

instance : DecidableEq Term := decEq

/-- Everything but `null` and `false`. -/
def truthy : Term → Bool
  | .null => false
  | .bool value => value
  | _ => true

/-- The `||` of the server: the first operand when it is truthy. -/
def or (left right : Term) : Term := if left.truthy then left else right

def isBinary : Term → Bool
  | .string _ => true
  | _ => false

/-- A term as a list: nothing for `null`, a list itself, anything else alone. -/
def wrap : Term → List Term
  | .null => []
  | .list items => items
  | term => [term]

/-- `nil` as the missing value. -/
def toOption : Term → Option Term
  | .null => none
  | term => some term

@[simp] theorem truthy_string (value : String) : (Term.string value).truthy = true := rfl

@[simp] theorem truthy_null : Term.null.truthy = false := rfl

theorem or_of_truthy {left : Term} (truthy : left.truthy = true) (right : Term) :
    left.or right = left := by
  rw [or, if_pos truthy]

theorem or_of_not_truthy {left : Term} (falsy : left.truthy = false) (right : Term) :
    left.or right = right := by
  rw [or, if_neg (by simp [falsy])]

variable {term : Term}

theorem toOption_of_ne_null (present : term ≠ .null) : term.toOption = some term := by
  cases term with
  | null => exact absurd rfl present
  | _ => rfl

theorem or_null_of_truthy (truthy : term.truthy = true) : term.or .null = term :=
  or_of_truthy truthy .null

theorem or_null_eq_null : term.or .null = .null ↔ term.truthy = false := by
  rw [or]
  split
  · next truthy =>
      constructor
      · intro isNull
        rw [isNull] at truthy
        cases truthy
      · intro falsy
        rw [truthy] at falsy
        cases falsy
  · next falsy =>
      rw [Bool.not_eq_true] at falsy
      simp [falsy]

theorem or_null_or_null (term : Term) : (term.or .null).or .null = term.or .null := by
  cases truthy : term.truthy with
  | true => rw [or_of_truthy truthy, or_of_truthy truthy]
  | false =>
      rw [or_of_not_truthy truthy]
      rfl

theorem or_null_ne_false (term : Term) : term.or .null ≠ .bool false := by
  rw [or]
  split
  · next truthy =>
      intro equal
      rw [equal] at truthy
      cases truthy
  · exact nofun

theorem ne_null_of_truthy (truthy : term.truthy = true) : term ≠ .null := by
  intro equal
  rw [equal] at truthy
  cases truthy

end Term

end Ebb
