import Ebb.Core.JsonValue
import Ebb.Core.WireFields
import Ebb.Storage.ReverseIndex

namespace Ebb.Sync

/-! Queries as values, and the plans they are executed by: a scan of the source type, one
select for each group of predicates, an order and a limit. -/

/-! ## Queries -/

inductive Predicate where
  | field (field : String) (value : JsonValue)
  /-- Without an any-of list the predicate names no live edge. -/
  | relationship (as type : String) (anyOf : Option (List String))
  | membership (anyOf : Option (List String))

inductive Direction where
  | asc
  | desc
deriving DecidableEq

structure QueryOrder where
  field : String
  direction : Direction

/-- The row types a `with(...)` projection reads. -/
inductive Join where
  | relationship (target : String)
  | membership (target : String)

def Join.target : Join → String
  | .relationship target => target
  | .membership target => target

def Join.isRelationship : Join → Bool
  | .relationship _ => true
  | .membership _ => false

def Predicate.isRelationship : Predicate → Bool
  | .relationship _ _ _ => true
  | _ => false

structure Query where
  source : String
  groups : List (List Predicate)
  order : Option QueryOrder
  limit : Option Int
  joins : List Join

def emptyQuery (source : String) : Query where
  source := source
  groups := []
  order := none
  limit := none
  joins := []

/-- The values the fields of one group must equal. The fields are the keys of an object. -/
abbrev FilterGroup := List (String × JsonValue)

abbrev Filter := List FilterGroup

/-- A group without predicates is true, and makes the whole filter true. -/
def filterToGroups (filter : Option Filter) : List (List Predicate) :=
  let groups := filter.getD []
  if groups.any List.isEmpty then []
  else groups.map fun group => group.map fun entry => .field entry.1 entry.2

/-! ## Plans -/

inductive PlanPredicate where
  | adjacency (as type : String) (anyOf : Option (List String))
  | membership (anyOf : Option (List String))
  | filter (field : String) (value : JsonValue)

inductive PlanOp where
  | scan (type : String)
  | select (predicates : List PlanPredicate)
  | order (field : Option String) (direction : Direction)
  | limit (limit : Nat)

structure QueryPlan where
  ops : List PlanOp
  joins : List Join
  readTypes : List String

def toPlanPredicate : Predicate → PlanPredicate
  | .field field value => .filter field value
  | .relationship as type anyOf => .adjacency as type anyOf
  | .membership anyOf => .membership anyOf

def PlanPredicate.isIndexed : PlanPredicate → Bool
  | .filter _ _ => false
  | _ => true

def orderPredicates (predicates : List PlanPredicate) : List PlanPredicate :=
  predicates.filter PlanPredicate.isIndexed ++
    predicates.filter fun predicate => !predicate.isIndexed

/-- A chain over rows that are there already carries the empty source. -/
def isReplicaBacked (query : Query) : Bool := query.source != ""

def readTypesFor (query : Query) : List String :=
  let named := query.source :: query.joins.map Join.target
  let linked :=
    if query.groups.any (fun group => group.any Predicate.isRelationship) ||
        query.joins.any Join.isRelationship then
      named ++ [Storage.relationshipEntityType]
    else named
  (if isReplicaBacked query then linked ++ [Storage.membershipEntityType] else linked).eraseDups

def planQuery (query : Query) : QueryPlan where
  ops :=
    [.scan query.source] ++
      ((query.groups.filter fun group => !group.isEmpty).map fun group =>
        .select (orderPredicates (group.map toPlanPredicate))) ++
      [.order (query.order.map QueryOrder.field) ((query.order.map QueryOrder.direction).getD .asc)] ++
      match query.limit with
      | some limit => if 0 ≤ limit then [.limit limit.toNat] else []
      | none => []
  joins := query.joins
  readTypes := readTypesFor query

end Ebb.Sync
