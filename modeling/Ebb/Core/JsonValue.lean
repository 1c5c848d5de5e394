import Mathlib.Data.Rat.Defs
import Mathlib.Data.Nat.Log
import Mathlib.Algebra.GroupWithZero.Nat

namespace Ebb

/-! The JSON values of leaves, as a JavaScript program and as SQLite read them. -/

/-- A number as SQLite stores it: an INTEGER of 64 bits, or a REAL by its exact value. -/
inductive JsonNumber where
  | integer (value : Int)
  | real (value : Rat)
deriving DecidableEq

/-- The nearest double of an integer, ties to even. -/
def nearestDouble (value : Int) : Int :=
  if value.natAbs < 2 ^ 53 then value
  else
    let unit := 2 ^ (value.natAbs.log2 - 52)
    let quotient := value.natAbs / unit
    let remainder := value.natAbs % unit
    let rounded :=
      if 2 * remainder < unit || (2 * remainder = unit && quotient % 2 = 0) then quotient
      else quotient + 1
    value.sign * (rounded * unit : Nat)

example : nearestDouble 9007199254740993 = 9007199254740992 := by decide +kernel

/-- The value SQLite compares. -/
def JsonNumber.exact : JsonNumber → Rat
  | .integer value => value
  | .real value => value

/-- The value a JavaScript program holds. -/
def JsonNumber.double : JsonNumber → Rat
  | .integer value => nearestDouble value
  | .real value => value

inductive JsonValue where
  | null
  | bool (value : Bool)
  | number (value : JsonNumber)
  | text (value : String)
  /-- An array or an object, by its JSON text. -/
  | composite (json : String)
deriving DecidableEq

namespace JsonValue

/-- `left === right`: two arrays or objects that were read apart are never the same. -/
def strictEqual : JsonValue → JsonValue → Bool
  | .null, .null => true
  | .bool left, .bool right => left == right
  | .number left, .number right => left.double == right.double
  | .text left, .text right => left == right
  | _, _ => false

end JsonValue

/-! ## Values a client holds -/

/-- A number of a JavaScript program. -/
inductive ClientNumber where
  | finite (value : Rat)
  | infinity
  | negativeInfinity
  | nan
deriving DecidableEq

namespace ClientNumber

/-- `left - right`, as far as its sign and being no number go. -/
def minus : ClientNumber → ClientNumber → ClientNumber
  | .finite left, .finite right => .finite (left - right)
  | .infinity, .finite _ | .infinity, .negativeInfinity | .finite _, .negativeInfinity => .infinity
  | .negativeInfinity, .finite _ | .negativeInfinity, .infinity | .finite _, .infinity =>
      .negativeInfinity
  | _, _ => .nan

/-- What a sort makes of a comparator's result: no number counts as zero. -/
def taken : ClientNumber → Rat
  | .finite value => value
  | .infinity => 1
  | .negativeInfinity => -1
  | .nan => 0

end ClientNumber

/-- A leaf value as a client writes it: one JSON has a text for, or a number it has none
for. -/
inductive ClientValue where
  | json (value : JsonValue)
  | infinity
  | negativeInfinity
  | nan
deriving DecidableEq

namespace ClientValue

def number? : ClientValue → Option ClientNumber
  | .json (.number value) => some (.finite value.double)
  | .json _ => none
  | .infinity => some .infinity
  | .negativeInfinity => some .negativeInfinity
  | .nan => some .nan

def strictEqual : ClientValue → ClientValue → Bool
  | .json left, .json right => left.strictEqual right
  | .infinity, .infinity | .negativeInfinity, .negativeInfinity => true
  | _, _ => false

end ClientValue

end Ebb
