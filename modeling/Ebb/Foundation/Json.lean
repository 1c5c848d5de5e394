import Ebb.Foundation.OrderedMap

namespace Ebb

/-! JSON documents of objects and scalars, and assignment at a path of keys. -/

inductive Json (S : Type) where
  | scalar (value : S)
  | object (entries : List (String × Json S))

namespace Json

def nest (value : Json S) : List String → Json S
  | [] => value
  | key :: path => .object [(key, nest value path)]

/-- Assign at a path: an existing value is replaced, missing objects are created,
and a path through a scalar leads nowhere. -/
def set (value : Json S) : List String → Json S → Json S
  | [], _ => value
  | _ :: _, .scalar existing => .scalar existing
  | key :: path, .object entries =>
      match entries.lookup key with
      | none => .object (setEntry key (nest value path) entries)
      | some child => .object (setEntry key (set value path child) entries)

variable {entries : List (String × Json S)}

theorem set_of_lookup_none {key : String} (absent : entries.lookup key = none) (value : Json S)
    (path : List String) :
    set value (key :: path) (.object entries) =
      .object (setEntry key (nest value path) entries) := by
  rw [set, absent]

theorem set_of_lookup_some {key : String} {child : Json S} (found : entries.lookup key = some child)
    (value : Json S) (path : List String) :
    set value (key :: path) (.object entries) =
      .object (setEntry key (set value path child) entries) := by
  rw [set, found]

end Json

end Ebb
