import Ebb.Core.Action
import Ebb.Foundation.Term

namespace Ebb.Access

/-! The Actions the server authorizes and writes, as validation leaves them: the
`data` of an Update is any decoded term. -/

inductive Raised where
  | functionClauseError
  | protocolUndefinedError
  | argumentError
deriving DecidableEq

/-- A call ends early with the error tuple of a refusal or with a raise. -/
inductive Failure where
  | error (reason details : String)
  | raised (exception : Raised)
deriving DecidableEq

abbrev Outcome := Except Failure

theorem bind_eq_ok {first : Outcome α} {next : α → Outcome β} {result : β} :
    first >>= next = .ok result ↔ ∃ value, first = .ok value ∧ next value = .ok result := by
  cases first with
  | error failure =>
      constructor
      · intro equal
        cases equal
      · intro found
        rcases found with ⟨_, equal, _⟩
        cases equal
  | ok value =>
      constructor
      · exact fun equal => ⟨value, rfl, equal⟩
      · intro found
        rcases found with ⟨_, equal, rest⟩
        cases equal
        exact rest

/-! ## Fields -/

def entryOf (entries : List (String × Term)) (key : String) : Term :=
  (entries.lookup key).getD .null

/-- A leaf `{"value" => value}` unwraps to its value. -/
def unwrapValue : Term → Term
  | .map entries =>
      match entries.lookup "value" with
      | some value => value
      | none => .map entries
  | term => term

/-- `Fields.get/2`: it has no clause for `data` that is neither `nil` nor a map. -/
def Fields.get (data : Term) (field : String) : Outcome Term :=
  match data with
  | .null => .ok .null
  | .map entries =>
      match entryOf entries "fields" with
      | .map fields => .ok (unwrapValue (entryOf fields field))
      | _ => .ok .null
  | _ => .error (.raised .functionClauseError)

/-- What `Fields.get` reads where it does not raise. -/
def fieldOf (data : Term) (field : String) : Term :=
  match Fields.get data field with
  | .ok value => value
  | .error _ => .null

/-- `data` that `Fields.get` has a clause for. -/
def readable : Term → Bool
  | .null | .map _ => true
  | _ => false

theorem Fields.get_eq (data : Term) (field : String) :
    Fields.get data field =
      if readable data then .ok (fieldOf data field)
      else .error (.raised .functionClauseError) := by
  cases data with
  | map entries =>
      simp only [fieldOf, readable, if_true]
      cases got : Fields.get (.map entries) field with
      | ok value => rfl
      | error failure =>
          rw [Fields.get] at got
          split at got <;> cases got
  | null => rfl
  | _ => rfl

theorem Fields.get_eq_ok {data value : Term} {field : String} :
    Fields.get data field = .ok value ↔ readable data = true ∧ fieldOf data field = value := by
  rw [Fields.get_eq]
  split
  · next reads => simp [reads]
  · next reads => simp [reads]

@[simp] theorem fieldOf_null (field : String) : fieldOf .null field = .null := rfl

structure ValidatedUpdate where
  id : String
  subjectId : String
  subjectType : String
  method : UpdateMethod
  data : Term
deriving DecidableEq

structure ValidatedAction where
  id : String
  actorId : String
  hlc : Nat
  updates : List ValidatedUpdate
deriving DecidableEq

def systemEntityTypes : List String := ["group", "groupMember", "relationship", "entityGroup"]

end Ebb.Access
