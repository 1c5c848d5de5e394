import Ebb.Foundation.OrderedMap
import Mathlib.Logic.Relation

namespace Ebb.UnionFind

/-! Classes of keys kept by parent pointers: a root is its own parent, and joining two
classes hangs the root of one below the root of the other. -/

variable {α : Type u} [DecidableEq α]

/-- Follow the parents up to a root. A key without a parent is never left, so there is no
root to be found from it. -/
def find (parent : List (α × α)) : Nat → α → Option α
  | 0, _ => none
  | fuel + 1, key =>
      if parent.lookup key = some key then some key
      else find parent fuel ((parent.lookup key).getD key)

def add (parent : List (α × α)) (key : α) : List (α × α) :=
  if (parent.lookup key).isSome then parent else setEntry key key parent

def union (parent : List (α × α)) (fuel : Nat) (left right : α) : Option (List (α × α)) :=
  match find parent fuel left, find parent fuel right with
  | some rootLeft, some rootRight =>
      some (if rootLeft ≠ rootRight then setEntry rootRight rootLeft parent else parent)
  | _, _ => none

example : (union (add (add [] 1) 2) 2 1 2).bind (find · 2 2) = some 1 := by decide

/-! ## Finding -/

variable {parent : List (α × α)} {fuel more : Nat} {key root : α}

theorem find_mono (found : find parent fuel key = some root) (enough : fuel ≤ more) :
    find parent more key = some root := by
  induction fuel generalizing key more with
  | zero => simp [find] at found
  | succ fuel induction =>
      obtain ⟨rest, rfl⟩ : ∃ rest, more = rest + 1 := ⟨more - 1, by omega⟩
      simp only [find] at found ⊢
      split at found
      · next isRoot => rw [if_pos isRoot, found]
      · next inner =>
          rw [if_neg inner]
          exact induction found (by omega)

theorem find_absent (absent : parent.lookup key = none) : find parent fuel key = none := by
  induction fuel with
  | zero => rfl
  | succ fuel induction => simp [find, absent, induction]

theorem isRoot_of_find (found : find parent fuel key = some root) :
    parent.lookup root = some root := by
  induction fuel generalizing key with
  | zero => simp [find] at found
  | succ fuel induction =>
      simp only [find] at found
      split at found
      · next isRoot =>
          cases found
          exact isRoot
      · exact induction found

theorem find_add (found : find parent fuel key = some root) (new : α) :
    find (add parent new) fuel key = some root := by
  simp only [add]
  split
  · exact found
  · next absent =>
      have absent : parent.lookup new = none := Option.not_isSome_iff_eq_none.mp absent
      induction fuel generalizing key with
      | zero => simp [find] at found
      | succ fuel induction =>
          have different : key ≠ new := by
            rintro rfl
            rw [find_absent absent] at found
            cases found
          simp only [find, lookup_setEntry_of_ne different] at found ⊢
          split at found
          · next isRoot => rw [if_pos isRoot, found]
          · next inner =>
              rw [if_neg inner]
              exact induction found

theorem find_add_self (positive : 0 < fuel) (absent : parent.lookup key = none) :
    find (add parent key) fuel key = some key := by
  obtain ⟨rest, rfl⟩ : ∃ rest, fuel = rest + 1 := ⟨fuel - 1, by omega⟩
  simp [find, add, absent, lookup_setEntry_self]

theorem find_hang {above below : α} (aboveRoot : parent.lookup above = some above)
    (belowRoot : parent.lookup below = some below) (different : above ≠ below)
    (found : find parent fuel key = some root) :
    find (setEntry below above parent) (fuel + 1) key =
      some (if root = below then above else root) := by
  induction fuel generalizing key with
  | zero => simp [find] at found
  | succ fuel induction =>
      simp only [find] at found
      split at found
      · next isRoot =>
          simp only [Option.some.injEq] at found
          subst found
          by_cases moved : key = below
          · subst moved
            simp [find, lookup_setEntry_self, lookup_setEntry_of_ne different, different, aboveRoot]
          · simp [find, lookup_setEntry_of_ne moved, isRoot, moved]
      · next inner =>
          have kept : key ≠ below := by
            rintro rfl
            exact inner belowRoot
          rw [find, lookup_setEntry_of_ne kept, if_neg inner]
          exact induction found

/-! ## Classes -/

/-- The root of a key; a key that was never added is alone. -/
def rootOf (parent : List (α × α)) (fuel : Nat) (key : α) : α := (find parent fuel key).getD key

/-- The parents hold the classes of a relation, and `depth` steps lead to every root. -/
structure Represents (parent : List (α × α)) (depth : Nat) (edge : α → α → Prop) : Prop where
  found : ∀ key, (parent.lookup key).isSome → ∃ root, find parent depth key = some root
  same : ∀ left right, rootOf parent depth left = rootOf parent depth right ↔
    Relation.EqvGen edge left right

variable {depth : Nat} {edge : α → α → Prop}

theorem represents_nil : Represents ([] : List (α × α)) 1 fun _ _ => False where
  found := by simp
  same := by
    intro left right
    simp only [rootOf, find, List.lookup_nil, reduceCtorEq, if_false, Option.getD_none]
    constructor
    · rintro rfl
      exact .refl left
    · intro related
      induction related with
      | rel _ _ impossible => exact impossible.elim
      | refl _ => rfl
      | symm _ _ _ induction => exact induction.symm
      | trans _ _ _ _ _ first second => exact first.trans second

theorem rootOf_of_find (found : find parent fuel key = some root) :
    rootOf parent fuel key = root := by
  simp [rootOf, found]

theorem Represents.add (represents : Represents parent depth edge) (positive : 0 < depth)
    (new : α) : Represents (add parent new) depth edge := by
  have roots : ∀ key, rootOf (UnionFind.add parent new) depth key = rootOf parent depth key := by
    intro key
    cases stored : parent.lookup key with
    | some _ =>
        obtain ⟨root, found⟩ := represents.found key (by simp [stored])
        rw [rootOf_of_find (find_add found new), rootOf_of_find found]
    | none =>
        by_cases same : key = new
        · subst same
          rw [rootOf_of_find (find_add_self positive stored)]
          simp [rootOf, find_absent stored]
        · have absent : (UnionFind.add parent new).lookup key = none := by
            simp only [UnionFind.add]
            split
            · exact stored
            · rw [lookup_setEntry_of_ne same, stored]
          simp [rootOf, find_absent stored, find_absent absent]
  constructor
  case found =>
    intro key stored
    cases before : parent.lookup key with
    | some _ =>
        obtain ⟨root, found⟩ := represents.found key (by simp [before])
        exact ⟨root, find_add found new⟩
    | none =>
        have same : key = new := by
          by_contra different
          simp only [UnionFind.add] at stored
          split at stored
          · simp [before] at stored
          · simp [lookup_setEntry_of_ne different, before] at stored
        subst same
        exact ⟨key, find_add_self positive before⟩
  case same =>
    intro left right
    rw [roots, roots]
    exact represents.same left right

theorem Represents.mono (represents : Represents parent depth edge) (enough : depth ≤ more) :
    Represents parent more edge := by
  have roots : ∀ key, rootOf parent more key = rootOf parent depth key := by
    intro key
    cases stored : parent.lookup key with
    | some _ =>
        obtain ⟨root, found⟩ := represents.found key (by simp [stored])
        rw [rootOf_of_find (find_mono found enough), rootOf_of_find found]
    | none => simp [rootOf, find_absent stored]
  constructor
  case found =>
    intro key stored
    obtain ⟨root, found⟩ := represents.found key stored
    exact ⟨root, find_mono found enough⟩
  case same =>
    intro left right
    rw [roots, roots]
    exact represents.same left right

omit [DecidableEq α] in
theorem eqvGen_insert_related {left right : α} (related : Relation.EqvGen edge left right)
    (one other : α) :
    Relation.EqvGen (fun one other => edge one other ∨ one = left ∧ other = right) one other ↔
      Relation.EqvGen edge one other := by
  constructor
  · intro joined
    induction joined with
    | rel _ _ step =>
        cases step with
        | inl old => exact .rel _ _ old
        | inr new =>
            obtain ⟨rfl, rfl⟩ := new
            exact related
    | refl _ => exact .refl _
    | symm _ _ _ induction => exact .symm _ _ induction
    | trans _ _ _ _ _ first second => exact .trans _ _ _ first second
  · intro old
    exact old.mono fun _ _ step => .inl step

theorem Represents.union (represents : Represents parent depth edge) {left right : α}
    (leftStored : (parent.lookup left).isSome) (rightStored : (parent.lookup right).isSome)
    (enough : depth ≤ fuel) :
    ∃ next, union parent fuel left right = some next ∧
      (∀ key, (parent.lookup key).isSome → (next.lookup key).isSome) ∧
      Represents next (depth + 1) fun one other => edge one other ∨ one = left ∧ other = right := by
  obtain ⟨above, leftFound⟩ := represents.found left leftStored
  obtain ⟨below, rightFound⟩ := represents.found right rightStored
  have leftRoot := rootOf_of_find leftFound
  have rightRoot := rootOf_of_find rightFound
  refine ⟨_, by simp only [UnionFind.union, find_mono leftFound enough, find_mono rightFound enough]; rfl,
    ?_, ?_⟩
  · intro key stored
    split
    · rw [lookup_setEntry]
      split
      · rfl
      · exact stored
    · exact stored
  · by_cases apart : above ≠ below
    · rw [if_pos apart]
      have aboveRoot := isRoot_of_find leftFound
      have belowRoot := isRoot_of_find rightFound
      have roots : ∀ key, rootOf (setEntry below above parent) (depth + 1) key =
          if rootOf parent depth key = below then above else rootOf parent depth key := by
        intro key
        cases stored : parent.lookup key with
        | some _ =>
            obtain ⟨root, found⟩ := represents.found key (by simp [stored])
            rw [rootOf_of_find (find_hang aboveRoot belowRoot apart found), rootOf_of_find found]
        | none =>
            have different : key ≠ below := by
              rintro rfl
              simp [stored] at belowRoot
            have absent : (setEntry below above parent).lookup key = none := by
              rw [lookup_setEntry_of_ne different, stored]
            simp [rootOf, find_absent stored, find_absent absent, different]
      have old : ∀ one other, rootOf parent depth one = rootOf parent depth other →
          Relation.EqvGen (fun one other => edge one other ∨ one = left ∧ other = right)
            one other := by
        intro one other same
        exact ((represents.same one other).mp same).mono fun _ _ step => .inl step
      have bridge : Relation.EqvGen (fun one other => edge one other ∨ one = left ∧ other = right)
          left right := .rel _ _ (.inr ⟨rfl, rfl⟩)
      constructor
      case found =>
        intro key stored
        have before : (parent.lookup key).isSome := by
          rw [lookup_setEntry] at stored
          split at stored
          · next same => simp [same, belowRoot]
          · exact stored
        obtain ⟨root, found⟩ := represents.found key before
        exact ⟨_, find_hang aboveRoot belowRoot apart found⟩
      case same =>
        intro one other
        rw [roots, roots]
        constructor
        · intro same
          split at same
          · next oneBelow =>
              have toRight := old one right (oneBelow.trans rightRoot.symm)
              split at same
              · next otherBelow => exact toRight.trans _ _ _ (old right other (by rw [rightRoot, otherBelow]))
              · next otherKept =>
                  have toOther := old left other (by rw [leftRoot, same])
                  exact toRight.trans _ _ _ ((bridge.symm _ _).trans _ _ _ toOther)
          · next oneKept =>
              split at same
              · next otherBelow =>
                  have toLeft := old one left (by rw [leftRoot, same])
                  have toOther := old right other (by rw [rightRoot, otherBelow])
                  exact toLeft.trans _ _ _ (bridge.trans _ _ _ toOther)
              · next otherKept => exact old one other same
        · intro related
          induction related with
          | rel one other step =>
              cases step with
              | inl edge =>
                  rw [(represents.same one other).mpr (.rel _ _ edge)]
              | inr new =>
                  obtain ⟨rfl, rfl⟩ := new
                  simp [leftRoot, rightRoot]
          | refl _ => rfl
          | symm _ _ _ induction => exact induction.symm
          | trans _ _ _ _ _ first second => exact first.trans second
    · rw [if_neg apart]
      have related : Relation.EqvGen edge left right := by
        rw [← represents.same, leftRoot, rightRoot]
        exact not_ne_iff.mp apart
      have deeper := represents.mono (Nat.le_succ depth)
      exact ⟨deeper.found, fun one other =>
        (deeper.same one other).trans (eqvGen_insert_related related one other).symm⟩

end Ebb.UnionFind
