import Ebb.Core.FieldPaths

namespace Ebb

/-! Assignment at a path of a field value, read path by path. -/

/-- One of the paths runs through the other. -/
def Aligned (left right : List String) : Prop := left <+: right ∨ right <+: left

@[simp] theorem aligned_cons_cons (key other : String) (left right : List String) :
    Aligned (key :: left) (other :: right) ↔ key = other ∧ Aligned left right := by
  simp only [Aligned, List.cons_prefix_cons]
  constructor
  · rintro (⟨same, aligned⟩ | ⟨same, aligned⟩)
    · exact ⟨same, .inl aligned⟩
    · exact ⟨same.symm, .inr aligned⟩
  · rintro ⟨same, aligned | aligned⟩
    · exact .inl ⟨same, aligned⟩
    · exact .inr ⟨same.symm, aligned⟩

variable {existing target : FieldValue V} {assignments : List (List String × FieldValue V)}
  (value : FieldValue V) (path : List String)

@[simp] theorem aligned_nil_left : Aligned [] path :=
  .inl List.nil_prefix

@[simp] theorem aligned_nil_right : Aligned path [] :=
  .inr List.nil_prefix

/-! ## Assigning -/

def nestMaps (value : FieldValue V) : List String → FieldValue V
  | [] => value
  | key :: path => .map [(key, nestMaps value path)]

def FieldValue.assign (value : FieldValue V) : List String → FieldValue V → FieldValue V
  | [], _ => value
  | _ :: _, .leaf standing => .leaf standing
  | key :: path, .map entries =>
      match entries.lookup key with
      | none => .map (setEntry key (nestMaps value path) entries)
      | some child => .map (setEntry key (assign value path child) entries)

/-- No leaf stands in the way of an assignment. -/
def FieldValue.OpenAt (existing : FieldValue V) (path : List String) : Prop :=
  ∀ before, before <+: path → before ≠ path → ∀ leaf, existing.at before ≠ some (.leaf leaf)

theorem FieldValue.OpenAt.child {entries : Fields V} {key : String} {path : List String}
    (opened : (FieldValue.map entries).OpenAt (key :: path)) {child : FieldValue V}
    (found : entries.lookup key = some child) : child.OpenAt path := by
  intro before within proper leaf standing
  apply opened (key :: before) (List.cons_prefix_cons.mpr ⟨rfl, within⟩) (by simpa using proper) leaf
  rw [at_map_cons, found]
  exact standing

def assignedNode (value : FieldValue V) (assigned path : List String)
    (before : Option (FieldNode V)) : Option (FieldNode V) :=
  if assigned <+: path then value.at (path.drop assigned.length)
  else if path <+: assigned then some .map
  else before

@[simp] theorem assignedNode_cons_cons (key : String) (assigned path : List String)
    (before : Option (FieldNode V)) :
    assignedNode value (key :: assigned) (key :: path) before =
      assignedNode value assigned path before := by
  simp [assignedNode]

theorem assignedNode_of_ne {key other : String} (different : other ≠ key)
    (assigned path : List String) (before : Option (FieldNode V)) :
    assignedNode value (key :: assigned) (other :: path) before = before := by
  simp [assignedNode, List.cons_prefix_cons, different, different.symm]

theorem at_nestMaps (assigned path : List String) :
    (nestMaps value assigned).at path = assignedNode value assigned path none := by
  induction assigned generalizing path with
  | nil => simp [nestMaps, assignedNode]
  | cons key assigned induction =>
      cases path with
      | nil => simp [nestMaps, assignedNode, FieldValue.at]
      | cons other path =>
          rw [nestMaps, at_map_cons, lookup_cons_eq]
          by_cases same : other = key
          · subst same
            rw [assignedNode_cons_cons, if_pos rfl]
            exact induction path
          · rw [assignedNode_of_ne value same, if_neg same]
            rfl

theorem at_assign {assigned : List String} (opened : existing.OpenAt assigned) (path : List String)
    :
    (FieldValue.assign value assigned existing).at path =
      assignedNode value assigned path (existing.at path) := by
  induction assigned generalizing existing path with
  | nil => simp [FieldValue.assign, assignedNode]
  | cons key assigned induction =>
      cases existing with
      | leaf leaf => exact absurd rfl (opened [] List.nil_prefix (by simp) leaf)
      | map entries =>
          cases path with
          | nil =>
              have isMap : (FieldValue.assign value (key :: assigned) (.map entries)).at [] =
                  some .map := by
                rw [FieldValue.assign]
                split <;> rfl
              simp [isMap, assignedNode]
          | cons other path =>
              cases found : entries.lookup key with
              | none =>
                  rw [FieldValue.assign, found]
                  simp only [at_map_cons, lookup_setEntry]
                  by_cases same : other = key
                  · subst same
                    rw [assignedNode_cons_cons, if_pos rfl, found]
                    exact at_nestMaps value assigned path
                  · rw [assignedNode_of_ne value same, if_neg same]
              | some child =>
                  rw [FieldValue.assign, found]
                  simp only [at_map_cons, lookup_setEntry]
                  by_cases same : other = key
                  · subst same
                    rw [assignedNode_cons_cons, if_pos rfl, found]
                    exact induction (opened.child found) path
                  · rw [assignedNode_of_ne value same, if_neg same]

/-! ## Assigning parts of a target

Assignments that all write what a target holds bring a value to the target
wherever they reach, in whatever order they run. -/

/-- The part of `target` at `path`. -/
def FieldValue.HasAt (target : FieldValue V) (path : List String) (value : FieldValue V) : Prop :=
  ∀ below, target.at (path ++ below) = value.at below

theorem at_prefix_of_at {value : FieldValue V} {before path : List String}
    (within : before <+: path) (proper : before ≠ path) (present : value.at path ≠ none) :
    value.at before = some .map := by
  induction before generalizing value path with
  | nil =>
      cases value with
      | map entries => rfl
      | leaf leaf =>
          cases path with
          | nil => exact absurd rfl proper
          | cons key path => exact absurd rfl present
  | cons key before induction =>
      rcases within with ⟨rest, rfl⟩
      cases value with
      | leaf leaf => exact absurd rfl present
      | map entries =>
          rw [List.cons_append, at_map_cons] at present
          rw [at_map_cons]
          cases found : entries.lookup key with
          | none => exact absurd (by rw [found]; rfl) present
          | some child =>
              rw [found] at present
              exact induction ⟨rest, rfl⟩ (by simpa using proper) present

theorem FieldValue.root_present : value.at [] ≠ none := by
  cases value with
  | leaf leaf => exact fun absent => nomatch absent
  | map entries => exact fun absent => nomatch absent

theorem FieldValue.HasAt.above {value : FieldValue V} {path before : List String}
    (has : target.HasAt path value) (within : before <+: path) (proper : before ≠ path) :
    target.at before = some .map := by
  apply at_prefix_of_at within proper
  have here := has []
  rw [List.append_nil] at here
  rw [here]
  exact value.root_present

theorem assignedNode_eq_target {value : FieldValue V} {assigned : List String}
    (has : target.HasAt assigned value) {path : List String} {before : Option (FieldNode V)}
    (reaches : Aligned assigned path ∨ before = target.at path) :
    assignedNode value assigned path before = target.at path := by
  rw [assignedNode]
  by_cases below : assigned <+: path
  · rcases below with ⟨rest, rfl⟩
    rw [if_pos ⟨rest, rfl⟩, List.drop_left]
    exact (has rest).symm
  · rw [if_neg below]
    by_cases above : path <+: assigned
    · rw [if_pos above]
      exact (has.above above fun same => below (same ▸ List.prefix_rfl)).symm
    · rw [if_neg above]
      rcases reaches with aligned | same
      · exact absurd aligned (by simp [Aligned, below, above])
      · exact same

theorem FieldValue.OpenAt.assign {value part : FieldValue V} {assigned other : List String}
    (has : target.HasAt assigned value) (hasOther : target.HasAt other part)
    (opened : existing.OpenAt assigned) (openedOther : existing.OpenAt other)
    : (value.assign assigned existing).OpenAt other := by
  intro before within proper leaf standing
  rw [at_assign value opened] at standing
  by_cases aligned : Aligned assigned before
  · rw [assignedNode_eq_target has (.inl aligned), hasOther.above within proper] at standing
    cases standing
  · have untouched : assignedNode value assigned before (existing.at before) =
        existing.at before := by
      simp only [Aligned, not_or] at aligned
      rw [assignedNode, if_neg aligned.1, if_neg aligned.2]
    rw [untouched] at standing
    exact openedOther before within proper leaf standing

def assignAll (assignments : List (List String × FieldValue V)) (existing : FieldValue V) :
    FieldValue V :=
  assignments.foldl (fun value assignment => assignment.2.assign assignment.1 value) existing

/-- The assignments write parts of the target, with no leaf in their way. -/
structure PartsOf (target : FieldValue V) (assignments : List (List String × FieldValue V))
    (existing : FieldValue V) : Prop where
  has : ∀ assignment ∈ assignments, target.HasAt assignment.1 assignment.2
  opened : ∀ assignment ∈ assignments, existing.OpenAt assignment.1

theorem PartsOf.tail {assignment : List String × FieldValue V}
    {rest : List (List String × FieldValue V)}
    (parts : PartsOf target (assignment :: rest) existing) :
    PartsOf target rest (assignment.2.assign assignment.1 existing) where
  has other member := parts.has other (List.mem_cons_of_mem _ member)
  opened other member := by
    have inAll := List.mem_cons_of_mem assignment member
    exact FieldValue.OpenAt.assign (parts.has assignment List.mem_cons_self)
      (parts.has other inAll) (parts.opened assignment List.mem_cons_self)
      (parts.opened other inAll)

theorem at_assignAll (parts : PartsOf target assignments existing) {path : List String}
    (reaches : (∃ assignment ∈ assignments, Aligned assignment.1 path) ∨ existing.at path =
      target.at path) :
    (assignAll assignments existing).at path = target.at path := by
  induction assignments generalizing existing with
  | nil =>
      rcases reaches with ⟨_, member, _⟩ | same
      · cases member
      · exact same
  | cons assignment rest induction =>
      apply induction parts.tail
      have has := parts.has assignment List.mem_cons_self
      rw [at_assign assignment.2 (parts.opened assignment List.mem_cons_self)]
      rcases reaches with ⟨other, member, aligned⟩ | same
      · rcases List.mem_cons.mp member with equal | member
        · subst equal
          exact .inr (assignedNode_eq_target has (.inl aligned))
        · exact .inl ⟨other, member, aligned⟩
      · exact .inr (assignedNode_eq_target has (.inr same))

theorem at_assignAll_of_apart (parts : PartsOf target assignments existing) {path : List String}
    (apart : ∀ assignment ∈ assignments, ¬ Aligned assignment.1 path) :
    (assignAll assignments existing).at path = existing.at path := by
  induction assignments generalizing existing with
  | nil => rfl
  | cons assignment rest induction =>
      have here := apart assignment List.mem_cons_self
      simp only [Aligned, not_or] at here
      have later := induction parts.tail
        fun other member => apart other (List.mem_cons_of_mem assignment member)
      rw [assignAll, List.foldl_cons]
      exact later.trans (by
        rw [at_assign assignment.2 (parts.opened assignment List.mem_cons_self), assignedNode,
          if_neg here.1, if_neg here.2])

end Ebb
