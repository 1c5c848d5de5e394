import Ebb.Foundation.Comparator
import Ebb.Sync.QueryExecute

namespace Ebb.Sync

/-! The order of a query result. Numbers are compared as numbers and every other pair of
values by locale, so a value between two numbers may turn their order around; and no number
at all is before or after a number. -/

open Storage (Entity)

/-- `localeCompare` puts strings in a total preorder, and values that are the same print
the same. -/
structure Collation.Lawful (collation : Collation) : Prop where
  comparing : Comparing fun left right => (collation.localeCompare left right : Rat)
  display : ∀ {left right : ClientValue}, left.strictEqual right = true →
    collation.display left = collation.display right

/-- The difference of two numbers, where what is no number stands before all others. -/
def numberDistance : ClientNumber → ClientNumber → Rat
  | .nan, .nan => 0
  | .nan, _ => -1
  | _, .nan => 1
  | left, right => (left.minus right).taken

theorem comparing_numberDistance : Comparing numberDistance := by
  constructor
  case flip =>
    intro left right
    cases left <;> cases right <;>
      simp [numberDistance, ClientNumber.minus, ClientNumber.taken]
  case trans =>
    intro first second third
    cases first <;> cases second <;> cases third <;>
      simp [numberDistance, ClientNumber.minus, ClientNumber.taken]
    case finite.finite.finite => exact le_trans

theorem numberDistance_eq_zero {one two : ClientNumber} (isOne : one ≠ .nan) :
    numberDistance one two = 0 ↔ one = two := by
  cases one <;> cases two <;>
    simp_all [numberDistance, ClientNumber.minus, ClientNumber.taken, sub_eq_zero]

namespace Direction

def orient {α : Type u} (compare : α → α → Rat) : Direction → α → α → Rat
  | .asc, left, right => compare left right
  | .desc, left, right => compare right left

theorem comparing_orient {α : Type u} {compare : α → α → Rat} (comparing : Comparing compare)
    (direction : Direction) : Comparing (direction.orient compare) := by
  cases direction with
  | asc => exact comparing
  | desc => exact comparing.swap

theorem orient_eq_zero {α : Type u} {compare : α → α → Rat} (comparing : Comparing compare)
    {direction : Direction} {one two : α} :
    direction.orient compare one two = 0 ↔ compare one two = 0 := by
  cases direction with
  | asc => exact Iff.rfl
  | desc => exact ⟨comparing.level_symm, comparing.level_symm⟩

end Direction

section Order

variable {V : Type} (collation : Collation) (resolveField : FieldResolver V)
  (field : Option String)

def idOrder (left right : Entity V) : Rat := collation.localeCompare left.id right.id

def orderedValue (row : Entity V) : Option ClientValue := field.bind (resolveField row)

def isNumber (value : Option ClientValue) : Bool := (value.bind ClientValue.number?).isSome

def numberOf (value : Option ClientValue) : ClientNumber :=
  (value.bind ClientValue.number?).getD .nan

def printed : Option ClientValue → String
  | some value => collation.display value
  | none => ""

def numberOrder (direction : Direction) : Entity V → Entity V → Rat :=
  comparingThen
    (fun left right => direction.orient numberDistance
      (numberOf (orderedValue resolveField field left))
      (numberOf (orderedValue resolveField field right)))
    (idOrder collation)

/-- By what the value prints, then by id. -/
def textOrder (direction : Direction) : Entity V → Entity V → Rat :=
  comparingThen
    (fun left right => direction.orient
      (fun first second => (collation.localeCompare first second : Rat))
      (printed collation (orderedValue resolveField field left))
      (printed collation (orderedValue resolveField field right)))
    (idOrder collation)

/-- Neither the values nor the ids tell two rows apart. What is no number is told apart from
no number, whatever the ids. -/
def Tied (left right : Entity V) : Prop :=
  match orderedValue resolveField field left, orderedValue resolveField field right with
  | none, none => idOrder collation left right = 0
  | some first, some second =>
      match first.number?, second.number? with
      | some one, some two =>
          one = .nan ∨ two = .nan ∨ one = two ∧ idOrder collation left right = 0
      | _, _ =>
          collation.localeCompare (collation.display first) (collation.display second) = 0 ∧
            idOrder collation left right = 0
  | _, _ => False

/-- No other value stands, as printed, between two numbers that print against their order. -/
def NumbersInStep (direction : Direction) (rows : List (Entity V)) : Prop :=
  ∀ first ∈ rows, ∀ second ∈ rows, ∀ other ∈ rows,
    isNumber (orderedValue resolveField field first) = true →
    isNumber (orderedValue resolveField field second) = true →
    (orderedValue resolveField field other).isSome = true →
    isNumber (orderedValue resolveField field other) = false →
    numberOrder collation resolveField field direction first second < 0 →
    textOrder collation resolveField field direction second other < 0 →
      ¬ textOrder collation resolveField field direction other first < 0

/-- In both directions the rows are in a strict total order, and sorted alike however they
were scanned. -/
structure OrdersRows (rows : List (Entity V)) : Prop where
  strict : ∀ direction, OrdersStrictly (rowOrder collation resolveField field direction) rows
  settled : ∀ direction scanned, scanned.Perm rows →
    sortByComparing (rowOrder collation resolveField field direction) scanned =
      sortByComparing (rowOrder collation resolveField field direction) rows

section Lawful

variable {collation resolveField field} (lawful : collation.Lawful) {direction : Direction}
  {left right : Entity V}

section

include lawful

theorem comparing_idOrder : Comparing (idOrder (V := V) collation) :=
  lawful.comparing.comap Entity.id

theorem comparing_numberOrder : Comparing (numberOrder collation resolveField field direction) :=
  ((Direction.comparing_orient comparing_numberDistance direction).comap _).andThen
    (comparing_idOrder lawful)

theorem comparing_textOrder : Comparing (textOrder collation resolveField field direction) :=
  ((Direction.comparing_orient lawful.comparing direction).comap _).andThen
    (comparing_idOrder lawful)

end

/-! ## One pair of values -/

section Values

variable {first second : ClientValue} {one two : ClientNumber}

theorem strictEqual_numbers (firstNumber : first.number? = some one)
    (secondNumber : second.number? = some two) :
    first.strictEqual second = decide (one = two ∧ one ≠ .nan) := by
  have json : ∀ {value : JsonValue} {number : ClientNumber},
      (ClientValue.json value).number? = some number →
        ∃ stored, value = .number stored ∧ number = .finite stored.double := by
    intro value number found
    cases value with
    | number stored => exact ⟨stored, rfl, (Option.some.inj found).symm⟩
    | _ => cases found
  cases first with
  | json left =>
      rcases json firstNumber with ⟨leftStored, rfl, rfl⟩
      cases second with
      | json right =>
          rcases json secondNumber with ⟨rightStored, rfl, rfl⟩
          simp [ClientValue.strictEqual, JsonValue.strictEqual, beq_eq_decide]
      | _ =>
          cases secondNumber
          simp [ClientValue.strictEqual]
  | _ =>
      cases firstNumber
      cases second with
      | json right =>
          rcases json secondNumber with ⟨rightStored, rfl, rfl⟩
          simp [ClientValue.strictEqual]
      | _ =>
          cases secondNumber
          simp [ClientValue.strictEqual]

theorem compareFieldValues_nan (firstNumber : first.number? = some one)
    (secondNumber : second.number? = some two) (none : one = .nan ∨ two = .nan) :
    compareFieldValues collation (some first) (some second) direction = .nan := by
  have different : ¬ (one = two ∧ one ≠ .nan) := by
    rintro ⟨rfl, number⟩
    exact number (none.elim id id)
  simp only [compareFieldValues, strictEqual_numbers firstNumber secondNumber, different,
    firstNumber, secondNumber, decide_false, Bool.false_eq_true, if_false]
  rcases none with rfl | rfl
  · cases direction <;> cases two <;> rfl
  · cases direction <;> cases one <;> rfl

theorem compareFieldValues_numbers (firstNumber : first.number? = some one)
    (secondNumber : second.number? = some two) (isOne : one ≠ .nan) (isTwo : two ≠ .nan) :
    (compareFieldValues collation (some first) (some second) direction).taken =
        direction.orient numberDistance one two ∧
      (compareFieldValues collation (some first) (some second) direction = .finite 0 ↔
        direction.orient numberDistance one two = 0) := by
  have strict := strictEqual_numbers firstNumber secondNumber
  by_cases same : one = two
  · subst same
    have level := (Direction.comparing_orient comparing_numberDistance direction).self one
    unfold compareFieldValues
    dsimp only
    rw [if_pos (by rw [strict]; exact decide_eq_true ⟨rfl, isOne⟩), level]
    exact ⟨rfl, iff_of_true rfl rfl⟩
  · have unequal : first.strictEqual second = false := by
      rw [strict]
      exact decide_eq_false fun both => same both.1
    simp only [compareFieldValues, unequal, firstNumber, secondNumber, Bool.false_eq_true,
      if_false]
    cases direction <;> cases one <;> cases two <;>
      simp_all [Direction.orient, numberDistance, ClientNumber.minus, ClientNumber.taken]

theorem compareFieldValues_texts (lawful : collation.Lawful)
    (texts : first.number? = none ∨ second.number? = none) :
    compareFieldValues collation (some first) (some second) direction =
      .finite (direction.orient (fun left right => (collation.localeCompare left right : Rat))
        (collation.display first) (collation.display second)) := by
  unfold compareFieldValues
  dsimp only
  split
  · next same =>
      have level := (Direction.comparing_orient lawful.comparing direction).self
        (collation.display second)
      rw [lawful.display same, level]
  · rcases texts with none | none
    · rw [none]
      cases direction <;> rfl
    · rw [none]
      cases direction <;> cases first.number? <;> rfl

end Values

/-! ## One pair of rows -/

theorem rowOrder_absent {field : String} (leftAbsent : resolveField left field = none)
    (rightAbsent : resolveField right field = none) :
    rowOrder collation resolveField (some field) direction left right =
      idOrder collation left right := by
  simp [rowOrder, compareRows, compareFieldValues, leftAbsent, rightAbsent, idOrder,
    ClientNumber.taken]

section Present

variable {name : String} {first second : ClientValue} {one two : ClientNumber}
  (leftPresent : resolveField left name = some first)
  (rightPresent : resolveField right name = some second)

include leftPresent rightPresent

theorem rowOrder_nan (firstNumber : first.number? = some one)
    (secondNumber : second.number? = some two) (none : one = .nan ∨ two = .nan) :
    rowOrder collation resolveField (some name) direction left right = 0 := by
  rw [rowOrder, compareRows, leftPresent, rightPresent,
    compareFieldValues_nan firstNumber secondNumber none]
  rfl

theorem rowOrder_numbers (firstNumber : first.number? = some one)
    (secondNumber : second.number? = some two) (isOne : one ≠ .nan) (isTwo : two ≠ .nan) :
    rowOrder collation resolveField (some name) direction left right =
      numberOrder collation resolveField (some name) direction left right := by
  have values := @compareFieldValues_numbers collation direction _ _ _ _ firstNumber secondNumber
    isOne isTwo
  have leftNumber : numberOf (orderedValue resolveField (some name) left) = one := by
    simp [numberOf, orderedValue, leftPresent, firstNumber]
  have rightNumber : numberOf (orderedValue resolveField (some name) right) = two := by
    simp [numberOf, orderedValue, rightPresent, secondNumber]
  rw [rowOrder, compareRows, leftPresent, rightPresent, numberOrder, comparingThen, leftNumber,
    rightNumber]
  by_cases level : direction.orient numberDistance one two = 0
  · rw [if_pos (values.2.mpr level), if_pos level]
    rfl
  · rw [if_neg fun same => level (values.2.mp same), if_neg level]
    exact values.1

theorem rowOrder_texts (lawful : collation.Lawful)
    (texts : first.number? = none ∨ second.number? = none) :
    rowOrder collation resolveField (some name) direction left right =
      textOrder collation resolveField (some name) direction left right := by
  rw [rowOrder, compareRows, leftPresent, rightPresent, compareFieldValues_texts lawful texts,
    textOrder, comparingThen]
  simp only [orderedValue, Option.bind_some, leftPresent, rightPresent, printed]
  split
  · next level =>
      rw [if_pos (ClientNumber.finite.inj level)]
      rfl
  · next apart =>
      rw [if_neg fun level => apart (congrArg ClientNumber.finite level)]
      rfl

end Present

include lawful

theorem rowOrder_flip : rowOrder collation resolveField field direction left right < 0 ↔
    0 < rowOrder collation resolveField field direction right left := by
  have ids : Comparing (idOrder (V := V) collation) := comparing_idOrder lawful
  cases field with
  | none =>
      cases direction with
      | asc => exact ids.flip left right
      | desc => exact ids.flip right left
  | some name =>
      cases leftValue : resolveField left name with
      | none =>
          cases rightValue : resolveField right name with
          | none =>
              rw [rowOrder_absent leftValue rightValue, rowOrder_absent rightValue leftValue]
              exact ids.flip left right
          | some second =>
              simp [rowOrder, compareRows, compareFieldValues, leftValue, rightValue,
                ClientNumber.taken]
      | some first =>
          cases rightValue : resolveField right name with
          | none =>
              simp [rowOrder, compareRows, compareFieldValues, leftValue, rightValue,
                ClientNumber.taken]
          | some second =>
              cases firstNumber : first.number? with
              | none =>
                  rw [rowOrder_texts leftValue rightValue lawful (.inl firstNumber),
                    rowOrder_texts rightValue leftValue lawful (.inr firstNumber)]
                  exact (comparing_textOrder lawful).flip left right
              | some one =>
                  cases secondNumber : second.number? with
                  | none =>
                      rw [rowOrder_texts leftValue rightValue lawful (.inr secondNumber),
                        rowOrder_texts rightValue leftValue lawful (.inl secondNumber)]
                      exact (comparing_textOrder lawful).flip left right
                  | some two =>
                      by_cases none : one = .nan ∨ two = .nan
                      · rw [rowOrder_nan leftValue rightValue firstNumber secondNumber none,
                          rowOrder_nan rightValue leftValue secondNumber firstNumber none.symm]
                      · rw [not_or] at none
                        rw [rowOrder_numbers leftValue rightValue firstNumber secondNumber none.1
                            none.2,
                          rowOrder_numbers rightValue leftValue secondNumber firstNumber none.2
                            none.1]
                        exact (comparing_numberOrder lawful).flip left right

theorem rowOrder_eq_zero_iff :
    rowOrder collation resolveField field direction left right = 0 ↔
      Tied collation resolveField field left right := by
  have ids : Comparing (idOrder (V := V) collation) := comparing_idOrder lawful
  cases field with
  | none =>
      cases direction with
      | asc => exact Iff.rfl
      | desc => exact ⟨ids.level_symm, ids.level_symm⟩
  | some name =>
      rw [Tied]
      simp only [orderedValue, Option.bind_some]
      cases leftValue : resolveField left name with
      | none =>
          cases rightValue : resolveField right name with
          | none => rw [rowOrder_absent leftValue rightValue]
          | some second =>
              simp [rowOrder, compareRows, compareFieldValues, leftValue, rightValue,
                ClientNumber.taken]
      | some first =>
          cases rightValue : resolveField right name with
          | none =>
              simp [rowOrder, compareRows, compareFieldValues, leftValue, rightValue,
                ClientNumber.taken]
          | some second =>
              have texts : textOrder collation resolveField (some name) direction left right =
                  0 ↔ collation.localeCompare (collation.display first)
                    (collation.display second) = 0 ∧ idOrder collation left right = 0 := by
                rw [textOrder, Comparing.then_eq_zero_iff,
                  Direction.orient_eq_zero lawful.comparing]
                simp only [orderedValue, Option.bind_some, leftValue, rightValue, printed,
                  Rat.intCast_eq_zero_iff]
              cases firstNumber : first.number? with
              | none =>
                  rw [rowOrder_texts leftValue rightValue lawful (.inl firstNumber), texts]
                  dsimp only
                  rw [firstNumber]
              | some one =>
                  cases secondNumber : second.number? with
                  | none =>
                      rw [rowOrder_texts leftValue rightValue lawful (.inr secondNumber), texts]
                      dsimp only
                      rw [firstNumber, secondNumber]
                  | some two =>
                      dsimp only
                      rw [firstNumber, secondNumber]
                      dsimp only
                      by_cases none : one = .nan ∨ two = .nan
                      · rw [rowOrder_nan leftValue rightValue firstNumber secondNumber none]
                        exact iff_of_true rfl (none.imp_right .inl)
                      · rw [← or_assoc, or_iff_right none]
                        rw [not_or] at none
                        rw [rowOrder_numbers leftValue rightValue firstNumber secondNumber none.1
                            none.2, numberOrder, Comparing.then_eq_zero_iff,
                          Direction.orient_eq_zero comparing_numberDistance]
                        simp only [orderedValue, Option.bind_some, leftValue, rightValue, numberOf,
                          firstNumber, secondNumber, Option.getD_some,
                          numberDistance_eq_zero none.1]

/-! ## Three rows -/

omit lawful in
theorem absent_of_lt {name : String} (absent : resolveField left name = none)
    (before : rowOrder collation resolveField (some name) direction left right < 0) :
    resolveField right name = none := by
  cases present : resolveField right name with
  | none => rfl
  | some value =>
      have behind : (1 : Rat) < 0 := by
        simpa [rowOrder, compareRows, compareFieldValues, ClientNumber.taken, absent, present]
          using before
      exact absurd behind (by decide)

/-- Two rows with values in order are in the order of their numbers or of their texts. -/
theorem order_of_lt {name : String} {first second : ClientValue}
    (leftPresent : resolveField left name = some first)
    (rightPresent : resolveField right name = some second)
    (before : rowOrder collation resolveField (some name) direction left right < 0) :
    if isNumber (some first) && isNumber (some second) then
      numberOrder collation resolveField (some name) direction left right < 0
    else textOrder collation resolveField (some name) direction left right < 0 := by
  have isNumber_eq : ∀ value : ClientValue, isNumber (some value) = value.number?.isSome :=
    fun _ => rfl
  cases firstNumber : first.number? with
  | none =>
      rw [rowOrder_texts leftPresent rightPresent lawful (.inl firstNumber)] at before
      rw [isNumber_eq first, firstNumber]
      exact before
  | some one =>
      cases secondNumber : second.number? with
      | none =>
          rw [rowOrder_texts leftPresent rightPresent lawful (.inr secondNumber)] at before
          rw [isNumber_eq second, secondNumber, Option.isSome_none, Bool.and_false]
          exact before
      | some two =>
          rw [isNumber_eq, isNumber_eq, firstNumber, secondNumber]
          by_cases none : one = .nan ∨ two = .nan
          · rw [rowOrder_nan leftPresent rightPresent firstNumber secondNumber none] at before
            exact absurd before (lt_irrefl 0)
          · rw [not_or] at none
            rw [rowOrder_numbers leftPresent rightPresent firstNumber secondNumber none.1
              none.2] at before
            exact before

variable {rows : List (Entity V)}

theorem rowOrder_acyclic (inStep : NumbersInStep collation resolveField field direction rows)
    {first second third : Entity V} (inFirst : first ∈ rows) (inSecond : second ∈ rows)
    (inThird : third ∈ rows)
    (before : rowOrder collation resolveField field direction first second < 0)
    (after : rowOrder collation resolveField field direction second third < 0) :
    ¬ rowOrder collation resolveField field direction third first < 0 := by
  intro back
  have ids : Comparing (idOrder (V := V) collation) := comparing_idOrder lawful
  have numbers := @comparing_numberOrder V collation resolveField field lawful direction
  have texts := @comparing_textOrder V collation resolveField field lawful direction
  cases field with
  | none =>
      cases direction with
      | asc => exact ids.acyclic before after back
      | desc => exact ids.swap.acyclic before after back
  | some name =>
      cases firstValue : resolveField first name with
      | none =>
          have secondValue := absent_of_lt firstValue before
          have thirdValue := absent_of_lt secondValue after
          rw [rowOrder_absent firstValue secondValue] at before
          rw [rowOrder_absent secondValue thirdValue] at after
          rw [rowOrder_absent thirdValue firstValue] at back
          exact ids.acyclic before after back
      | some one =>
          cases thirdValue : resolveField third name with
          | none =>
              rw [absent_of_lt thirdValue back] at firstValue
              cases firstValue
          | some three =>
              cases secondValue : resolveField second name with
              | none =>
                  rw [absent_of_lt secondValue after] at thirdValue
                  cases thirdValue
              | some two =>
                  replace before := order_of_lt lawful firstValue secondValue before
                  replace after := order_of_lt lawful secondValue thirdValue after
                  replace back := order_of_lt lawful thirdValue firstValue back
                  have numberAt : ∀ {row : Entity V} {value : ClientValue},
                      resolveField row name = some value →
                        isNumber (orderedValue resolveField (some name) row) =
                          isNumber (some value) := by
                    intro row value found
                    rw [orderedValue, Option.bind_some, found]
                  cases oneNumber : isNumber (some one) <;>
                    cases twoNumber : isNumber (some two) <;>
                    cases threeNumber : isNumber (some three) <;>
                    simp only [oneNumber, twoNumber, threeNumber, Bool.and_true, Bool.and_false,
                      if_true, Bool.false_eq_true, if_false] at before after back
                  case true.true.true => exact numbers.acyclic before after back
                  case true.true.false =>
                    exact inStep first inFirst second inSecond third inThird
                      ((numberAt firstValue).trans oneNumber)
                      ((numberAt secondValue).trans twoNumber)
                      (congrArg Option.isSome thirdValue)
                      ((numberAt thirdValue).trans threeNumber) before after back
                  case true.false.true =>
                    exact inStep third inThird first inFirst second inSecond
                      ((numberAt thirdValue).trans threeNumber)
                      ((numberAt firstValue).trans oneNumber)
                      (congrArg Option.isSome secondValue)
                      ((numberAt secondValue).trans twoNumber) back before after
                  case false.true.true =>
                    exact inStep second inSecond third inThird first inFirst
                      ((numberAt secondValue).trans twoNumber)
                      ((numberAt thirdValue).trans threeNumber)
                      (congrArg Option.isSome firstValue)
                      ((numberAt firstValue).trans oneNumber) after back before
                  all_goals exact texts.acyclic before after back

omit lawful in
theorem number_of_isNumber {name : String} {row : Entity V}
    (isSome : isNumber (orderedValue resolveField (some name) row) = true) :
    ∃ value number, resolveField row name = some value ∧ value.number? = some number := by
  rw [isNumber, orderedValue, Option.bind_some] at isSome
  rcases Option.isSome_iff_exists.mp isSome with ⟨number, found⟩
  rcases Option.bind_eq_some_iff.mp found with ⟨value, here, isNumber⟩
  exact ⟨value, number, here, isNumber⟩

theorem numbersInStep_of_strict
    (strict : OrdersStrictly (rowOrder collation resolveField field direction) rows) :
    NumbersInStep collation resolveField field direction rows := by
  intro first inFirst second inSecond other inOther firstNumber secondNumber present notNumber
    before after back
  cases field with
  | none => cases present
  | some name =>
      rcases number_of_isNumber firstNumber with ⟨firstValue, one, firstFound, isOne⟩
      rcases number_of_isNumber secondNumber with ⟨secondValue, two, secondFound, isTwo⟩
      rw [orderedValue, Option.bind_some] at present
      rcases Option.isSome_iff_exists.mp present with ⟨otherValue, otherFound⟩
      have text : otherValue.number? = none := by
        simpa [isNumber, orderedValue, otherFound] using notNumber
      have apart : one ≠ .nan ∧ two ≠ .nan := by
        rw [← not_or]
        intro none
        have different : first ≠ second := by
          rintro rfl
          exact absurd before
            (not_lt_of_ge (le_of_eq ((comparing_numberOrder lawful).self first).symm))
        rcases strict.total first inFirst second inSecond different with less | less
        · rw [rowOrder_nan firstFound secondFound isOne isTwo none] at less
          exact absurd less (lt_irrefl 0)
        · rw [rowOrder_nan secondFound firstFound isTwo isOne none.symm] at less
          exact absurd less (lt_irrefl 0)
      rw [← rowOrder_numbers firstFound secondFound isOne isTwo apart.1 apart.2] at before
      rw [← rowOrder_texts secondFound otherFound lawful (.inr text)] at after
      rw [← rowOrder_texts otherFound firstFound lawful (.inl text)] at back
      have circle := strict.trans first inFirst second inSecond other inOther before after
      exact lt_asymm back ((rowOrder_flip lawful).mp circle)

/-- The order of a query result is a strict total order exactly where ids or values tell the
rows apart and no other value stands between two numbers that print against their order. -/
theorem ordersRows_iff (rows : List (Entity V)) :
    OrdersRows collation resolveField field rows ↔
      (∀ left ∈ rows, ∀ right ∈ rows, left ≠ right → ¬ Tied collation resolveField field left right) ∧
        ∀ direction, NumbersInStep collation resolveField field direction rows := by
  constructor
  · intro orders
    constructor
    · intro left inLeft right inRight different tied
      have level : rowOrder collation resolveField field .asc left right = 0 :=
        (rowOrder_eq_zero_iff lawful).mpr tied
      rcases (orders.strict .asc).total left inLeft right inRight different with less | greater
      · exact absurd level (ne_of_lt less)
      · exact absurd level (ne_of_gt ((rowOrder_flip lawful).mp greater))
    · intro direction
      exact numbersInStep_of_strict lawful (orders.strict direction)
  · rintro ⟨apart, inStep⟩
    have strict (direction : Direction) :
        OrdersStrictly (rowOrder collation resolveField field direction) rows := by
      have irrefl (row : Entity V) :
          ¬ rowOrder collation resolveField field direction row row < 0 :=
        fun before => absurd ((rowOrder_flip lawful).mp before) (lt_asymm before)
      have total (left right : Entity V) (inLeft : left ∈ rows) (inRight : right ∈ rows)
          (different : left ≠ right) :
          rowOrder collation resolveField field direction left right < 0 ∨
            rowOrder collation resolveField field direction right left < 0 := by
        have unequal : rowOrder collation resolveField field direction left right ≠ 0 :=
          fun level => apart left inLeft right inRight different
            ((rowOrder_eq_zero_iff lawful).mp level)
        rcases lt_or_gt_of_ne unequal with less | greater
        · exact .inl less
        · exact .inr ((rowOrder_flip lawful).mpr greater)
      constructor
      case irrefl => exact fun row _ => irrefl row
      case total => exact fun left inLeft right inRight => total left right inLeft inRight
      case trans =>
        intro first one second two third three before after
        by_cases same : first = third
        · subst same
          exact absurd ((rowOrder_flip lawful).mp after) (lt_asymm before)
        · rcases total first third one three same with less | back
          · exact less
          · exact absurd back (rowOrder_acyclic lawful (inStep direction) one two three before
              after)
    constructor
    case strict => exact strict
    case settled =>
      intro direction scanned perm
      exact sortByComparing_perm (fun _ _ => rowOrder_flip lawful) (strict direction) perm

end Lawful

end Order

/-! ## Ranks kept as numbers and as text -/

/-- Strings by their code units; whole numbers print as their decimals. -/
def byUnits : Collation where
  localeCompare left right :=
    if codeUnitsGe left right then if codeUnitsGe right left then 0 else 1 else -1
  display
    | .json .null => "null"
    | .json (.bool value) => toString value
    | .json (.number value) => toString value.double.num
    | .json (.text value) => value
    | .json (.composite _) => "[object Object]"
    | .infinity => "Infinity"
    | .negativeInfinity => "-Infinity"
    | .nan => "NaN"

theorem byUnits_lawful : byUnits.Lawful where
  comparing := by
    have total (left right : String) :
        codeUnitsGe left right = true ∨ codeUnitsGe right left = true := by
      rw [codeUnitsGe_iff, codeUnitsGe_iff]
      exact List.le_total _ _
    have le_iff (left right : String) :
        (byUnits.localeCompare left right : Rat) ≤ 0 ↔ codeUnitsGe right left = true := by
      have either := total left right
      simp only [byUnits]
      cases forward : codeUnitsGe left right <;> cases backward : codeUnitsGe right left <;>
        simp_all
    constructor
    case flip =>
      intro left right
      have either := total left right
      simp only [byUnits]
      cases forward : codeUnitsGe left right <;> cases backward : codeUnitsGe right left <;>
        simp_all
    case trans =>
      intro first second third before after
      rw [le_iff, codeUnitsGe_iff] at *
      exact List.le_trans before after
  display := by
    intro left right same
    cases left with
    | json left =>
        cases right with
        | json right =>
            cases left <;> cases right <;>
              simp_all [ClientValue.strictEqual, JsonValue.strictEqual, byUnits]
        | _ => simp [ClientValue.strictEqual] at same
    | _ => cases right <;> first | rfl | simp [ClientValue.strictEqual] at same

def ranked (id : String) (rank : ClientValue) : Entity ClientValue where
  id := id
  type := "todo"
  fields := [("rank", .leaf { value := rank, updateId := "upd_1", hlc := some 10 })]
  createdHlc := 10
  updatedHlc := 10
  deletedHlc := none
  lastGsn := 1

def whole (value : Int) : ClientValue := .json (.number (.integer value))

theorem ordersRows_ranks : OrdersRows byUnits (fieldValue id) (some "rank")
    [ranked "a" (whole 9), ranked "b" (whole 10), ranked "c" (.json (.text "x"))] := by
  apply (ordersRows_iff byUnits_lawful _).mpr
  constructor
  · intro left inLeft right inRight different tied
    have level : rowOrder byUnits (fieldValue id) (some "rank") .asc left right = 0 :=
      (rowOrder_eq_zero_iff byUnits_lawful).mpr tied
    simp only [List.mem_cons, List.not_mem_nil, or_false] at inLeft inRight
    rcases inLeft with rfl | rfl | rfl <;> rcases inRight with rfl | rfl | rfl <;>
      first | exact different rfl | exact absurd level (by decide +kernel)
  · intro direction
    unfold NumbersInStep
    cases direction with
    | asc => decide +kernel
    | desc => decide +kernel

/-- 9 comes before 10, "10" before "5", and "5" before "9". -/
theorem not_ordersRows_ranks : ¬ OrdersRows byUnits (fieldValue id) (some "rank")
    [ranked "a" (whole 9), ranked "b" (whole 10), ranked "c" (.json (.text "5"))] := by
  intro orders
  have circle := (orders.strict .asc).trans (ranked "a" (whole 9)) (by simp)
    (ranked "b" (whole 10)) (by simp) (ranked "c" (.json (.text "5"))) (by simp)
    (by decide +kernel) (by decide +kernel)
  exact absurd circle (by decide +kernel)

/-- What is no number stands neither before nor after 1 and 3. -/
theorem not_ordersRows_nan : ¬ OrdersRows byUnits (fieldValue id) (some "rank")
    [ranked "a" (whole 3), ranked "b" .nan, ranked "c" (whole 1)] := by
  intro orders
  have apart := (orders.strict .asc).total (ranked "a" (whole 3)) (by simp) (ranked "b" .nan)
    (by simp) fun same => absurd (congrArg Entity.id same) (by decide)
  exact absurd apart (by decide +kernel)

end Ebb.Sync
