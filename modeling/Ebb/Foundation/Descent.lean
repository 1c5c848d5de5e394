import Ebb.Foundation.Forest
import Mathlib.Data.List.Perm.Subperm

namespace Ebb

/-! Tables of children in which a vertex has one parent at most. Below a vertex that no list
names the table is a tree, as long as the lists name finitely many vertices. -/

namespace Forest

variable {α : Type u} (children : α → List α)

/-- The lists of children repeat no vertex and share none. -/
structure UniqueParents : Prop where
  nodup : ∀ vertex, (children vertex).Nodup
  unique : ∀ {child first second}, child ∈ children first → child ∈ children second → first = second

/-- The vertices some steps down from another. -/
def Below : Nat → α → α → Prop
  | 0, vertex, lower => vertex = lower
  | steps + 1, vertex, lower => ∃ parent, Below steps vertex parent ∧ lower ∈ children parent

/-- No path leads from a vertex down to itself. -/
def Acyclic (vertex : α) : Prop := ∀ steps, ¬ Below children (steps + 1) vertex vertex

/-- A stack whose vertices are popped one by one, with the children of each pushed in its
place, runs empty. -/
inductive Finishes : List α → Prop
  | nil : Finishes []
  | pop {vertex : α} {rest : List α} (later : Finishes (children vertex ++ rest)) :
      Finishes (vertex :: rest)

def grow : Nat → List α → Forest α
  | 0, _ => nil
  | levels + 1, vertices =>
      vertices.foldr (fun vertex after => cons vertex (grow levels (children vertex)) after) nil

variable {children}

variable {lower : α}

/-! ## Steps -/

theorem below_of_child {steps : Nat} {vertex child : α} (first : child ∈ children vertex)
    (rest : Below children steps child lower) : Below children (steps + 1) vertex lower := by
  induction steps generalizing lower with
  | zero =>
      cases rest
      exact ⟨vertex, rfl, first⟩
  | succ steps induction =>
      rcases rest with ⟨parent, above, last⟩
      exact ⟨parent, induction above, last⟩

theorem child_of_below {steps : Nat} {vertex : α} (below : Below children (steps + 1) vertex lower)
    :
    ∃ child ∈ children vertex, Below children steps child lower := by
  induction steps generalizing lower with
  | zero =>
      rcases below with ⟨parent, rfl, child⟩
      exact ⟨lower, child, rfl⟩
  | succ steps induction =>
      rcases below with ⟨parent, above, last⟩
      rcases induction above with ⟨child, listed, beneath⟩
      exact ⟨child, listed, parent, beneath, last⟩

theorem below_trans {first second : Nat} {upper middle : α}
    (above : Below children first upper middle) (beneath : Below children second middle lower) :
    Below children (first + second) upper lower := by
  induction second generalizing lower with
  | zero =>
      cases beneath
      exact above
  | succ second induction =>
      rcases beneath with ⟨parent, further, last⟩
      exact ⟨parent, induction further, last⟩

theorem acyclic_of_top {root : α} (top : ∀ vertex, root ∉ children vertex) :
    Acyclic children root := by
  rintro steps ⟨parent, _, listed⟩
  exact top parent listed

namespace UniqueParents

variable {root : α}

theorem above_unique (unique : UniqueParents children) {steps : Nat} {first second lower : α}
    (left : Below children steps first lower) (right : Below children steps second lower) :
    first = second := by
  induction steps generalizing lower with
  | zero => exact left.trans right.symm
  | succ steps induction =>
      rcases left with ⟨parent, above, child⟩
      rcases right with ⟨other, otherAbove, otherChild⟩
      cases unique.unique child otherChild
      exact induction above otherAbove

theorem depth_unique (unique : UniqueParents children) (acyclic : Acyclic children root)
    {first second : Nat} {lower : α} (left : Below children first root lower)
    (right : Below children second root lower) : first = second := by
  induction first generalizing second lower with
  | zero =>
      cases left
      cases second with
      | zero => rfl
      | succ second => exact absurd right (acyclic second)
  | succ first induction =>
      cases second with
      | zero =>
          cases right
          exact absurd left (acyclic first)
      | succ second =>
          rcases left with ⟨parent, above, child⟩
          rcases right with ⟨other, otherAbove, otherChild⟩
          cases unique.unique child otherChild
          rw [induction above otherAbove]

theorem depth_lt (unique : UniqueParents children) (acyclic : Acyclic children root)
    {stored : List α} (rootStored : root ∈ stored)
    (listed : ∀ vertex child, child ∈ children vertex → child ∈ stored) {steps : Nat} {lower : α}
    (below : Below children steps root lower) : steps < stored.length := by
  have path : ∀ (steps : Nat) (lower : α), Below children steps root lower →
      ∃ path : List α, path.length = steps + 1 ∧ path.Nodup ∧ (∀ vertex ∈ path, vertex ∈ stored) ∧
        ∀ vertex ∈ path, ∃ depth ≤ steps, Below children depth root vertex := by
    intro steps
    induction steps with
    | zero =>
        intro lower below
        cases below
        refine ⟨[root], rfl, List.nodup_singleton root, ?_, ?_⟩
        · intro vertex member
          rw [List.mem_singleton.mp member]
          exact rootStored
        · intro vertex member
          rw [List.mem_singleton.mp member]
          exact ⟨0, Nat.le_refl 0, rfl⟩
    | succ steps induction =>
        rintro lower ⟨parent, above, child⟩
        rcases induction parent above with ⟨path, length, nodup, inStored, depths⟩
        refine ⟨lower :: path, ?_, List.nodup_cons.mpr ⟨fun member => ?_, nodup⟩, ?_, ?_⟩
        · rw [List.length_cons, length]
        · rcases depths lower member with ⟨depth, within, higher⟩
          have same := unique.depth_unique acyclic higher
            (show Below children (steps + 1) root lower from ⟨parent, above, child⟩)
          omega
        · intro vertex member
          rcases List.mem_cons.mp member with rfl | later
          · exact listed parent vertex child
          · exact inStored vertex later
        · intro vertex member
          rcases List.mem_cons.mp member with rfl | later
          · exact ⟨steps + 1, Nat.le_refl _, parent, above, child⟩
          · rcases depths vertex later with ⟨depth, within, higher⟩
            exact ⟨depth, Nat.le_succ_of_le within, higher⟩
  rcases path steps lower below with ⟨path, length, nodup, inStored, _⟩
  have size := (List.subperm_of_subset nodup inStored).length_le
  omega

end UniqueParents

/-! ## Growing a tree -/

theorem grow_cons (levels : Nat) (vertex : α) (rest : List α) :
    grow children (levels + 1) (vertex :: rest) =
      cons vertex (grow children levels (children vertex)) (grow children (levels + 1) rest) := rfl

theorem mem_order_grow {levels : Nat} {vertices : List α} :
    lower ∈ (grow children levels vertices).order ↔
      ∃ vertex ∈ vertices, ∃ steps < levels, Below children steps vertex lower := by
  induction levels generalizing vertices with
  | zero =>
      constructor
      · intro member
        cases member
      · rintro ⟨_, _, steps, short, _⟩
        cases short
  | succ levels induction =>
      induction vertices with
      | nil =>
          constructor
          · intro member
            cases member
          · rintro ⟨vertex, member, _⟩
            cases member
      | cons vertex rest later =>
          rw [grow_cons, order, List.mem_cons, List.mem_append, induction, later]
          constructor
          · rintro (rfl | ⟨child, listed, steps, short, below⟩ | ⟨other, member, found⟩)
            · exact ⟨lower, List.mem_cons_self, 0, Nat.succ_pos _, rfl⟩
            · exact ⟨vertex, List.mem_cons_self, steps + 1, by omega, below_of_child listed below⟩
            · exact ⟨other, List.mem_cons_of_mem _ member, found⟩
          · rintro ⟨other, member, steps, short, below⟩
            rcases List.mem_cons.mp member with rfl | inRest
            · cases steps with
              | zero => exact .inl below.symm
              | succ steps =>
                  rcases child_of_below below with ⟨child, listed, beneath⟩
                  exact .inr (.inl ⟨child, listed, steps, by omega, beneath⟩)
            · exact .inr (.inr ⟨other, inRest, steps, short, below⟩)

theorem grow_follows {levels : Nat} {vertices : List α}
    (bounded : ∀ vertex ∈ vertices, ∀ lower, ¬ Below children levels vertex lower) :
    (grow children levels vertices).roots = vertices ∧
      (grow children levels vertices).Follows children := by
  induction levels generalizing vertices with
  | zero =>
      cases vertices with
      | nil => exact ⟨rfl, trivial⟩
      | cons vertex rest => exact absurd rfl (bounded vertex List.mem_cons_self vertex)
  | succ levels induction =>
      induction vertices with
      | nil => exact ⟨rfl, trivial⟩
      | cons vertex rest later =>
          have inner := @induction (children vertex) fun child listed lower below =>
            bounded vertex List.mem_cons_self lower (below_of_child listed below)
          have after := later fun other member => bounded other (List.mem_cons_of_mem _ member)
          rw [grow_cons]
          exact ⟨congrArg (vertex :: ·) after.1, inner.1.symm, inner.2, after.2⟩

namespace UniqueParents

variable {root : α}

theorem nodup_grow (unique : UniqueParents children) (acyclic : Acyclic children root)
    {levels depth : Nat} {vertices : List α} (nodup : vertices.Nodup)
    (deep : ∀ vertex ∈ vertices, Below children depth root vertex) :
    (grow children levels vertices).order.Nodup := by
  induction levels generalizing depth vertices with
  | zero => exact List.nodup_nil
  | succ levels induction =>
      induction vertices with
      | nil => exact List.nodup_nil
      | cons vertex rest later =>
          have here := deep vertex List.mem_cons_self
          rcases List.nodup_cons.mp nodup with ⟨absent, restNodup⟩
          have restDeep : ∀ other ∈ rest, Below children depth root other := fun other member =>
            deep other (List.mem_cons_of_mem _ member)
          rw [grow_cons, nodup_cons]
          refine ⟨?_, ?_, ?_, later restNodup restDeep, ?_⟩
          · intro member
            rcases mem_order_grow.mp member with ⟨child, listed, steps, _, below⟩
            have same := unique.depth_unique acyclic here
              (below_trans here (below_of_child listed below))
            omega
          · intro member
            rcases mem_order_grow.mp member with ⟨other, inRest, steps, _, below⟩
            have same := unique.depth_unique acyclic here (below_trans (restDeep other inRest) below)
            cases steps with
            | zero =>
                cases below
                exact absent inRest
            | succ steps => omega
          · exact @induction (depth + 1) _ (unique.nodup vertex) fun child listed =>
              ⟨vertex, here, listed⟩
          · intro lower inBelow inRest
            rcases mem_order_grow.mp inBelow with ⟨child, listed, steps, _, below⟩
            rcases mem_order_grow.mp inRest with ⟨other, member, otherSteps, _, otherBelow⟩
            have below := below_of_child listed below
            have same := unique.depth_unique acyclic (below_trans here below)
              (below_trans (restDeep other member) otherBelow)
            have equal : otherSteps = steps + 1 := by omega
            subst equal
            cases unique.above_unique below otherBelow
            exact absent member

theorem exists_tree (unique : UniqueParents children) (acyclic : Acyclic children root)
    {stored : List α} (rootStored : root ∈ stored)
    (listed : ∀ vertex child, child ∈ children vertex → child ∈ stored) :
    ∃ tree : Forest α, tree.roots = [root] ∧ tree.Follows children ∧ tree.order.Nodup ∧
      ∀ vertex, vertex ∈ tree.order ↔ ∃ steps, Below children steps root vertex := by
  have bounded : ∀ vertex ∈ [root], ∀ lower, ¬ Below children stored.length vertex lower := by
    intro vertex member lower below
    rw [List.mem_singleton.mp member] at below
    exact Nat.lt_irrefl _ (unique.depth_lt acyclic rootStored listed below)
  rcases grow_follows bounded with ⟨roots, follows⟩
  refine ⟨_, roots, follows, ?_, fun vertex => ?_⟩
  · apply @nodup_grow _ _ _ unique acyclic _ 0 _ (List.nodup_singleton root)
    intro vertex member
    exact (List.mem_singleton.mp member).symm
  · rw [mem_order_grow]
    constructor
    · rintro ⟨other, member, steps, _, below⟩
      rw [List.mem_singleton.mp member] at below
      exact ⟨steps, below⟩
    · rintro ⟨steps, below⟩
      exact ⟨root, List.mem_singleton_self root, steps,
        unique.depth_lt acyclic rootStored listed below, below⟩

end UniqueParents

/-! ## Walking down with a stack -/

theorem Finishes.acyclic {stack : List α} (finishes : Finishes children stack) :
    ∀ vertex ∈ stack, Acyclic children vertex := by
  induction finishes with
  | nil => exact fun vertex member => nomatch member
  | @pop head rest _ induction =>
      intro vertex member steps below
      rcases List.mem_cons.mp member with rfl | later
      · -- The first step down a cycle leads to another vertex on it.
        rcases child_of_below below with ⟨child, listed, beneath⟩
        exact induction child (List.mem_append_left _ listed) steps ⟨vertex, beneath, listed⟩
      · exact induction vertex (List.mem_append_right _ later) steps below

theorem Follows.finishes {forest : Forest α} (follows : forest.Follows children) {stack : List α}
    (rest : Finishes children stack) : Finishes children (forest.roots ++ stack) := by
  induction forest generalizing stack with
  | nil => exact rest
  | cons root below after belowInduction afterInduction =>
      have later := belowInduction follows.2.1 (afterInduction follows.2.2 rest)
      rw [← follows.1] at later
      exact .pop later

theorem UniqueParents.finishes_iff (unique : UniqueParents children) {vertex : α}
    {stored : List α} (vertexStored : vertex ∈ stored)
    (listed : ∀ vertex child, child ∈ children vertex → child ∈ stored) :
    Finishes children [vertex] ↔ Acyclic children vertex := by
  constructor
  · exact fun finishes => finishes.acyclic vertex List.mem_cons_self
  · intro acyclic
    rcases unique.exists_tree acyclic vertexStored listed with ⟨tree, roots, follows, _⟩
    have walk := follows.finishes .nil
    rw [roots] at walk
    exact walk

/-! ## Order and descent -/

section Order

variable {forest : Forest α}

theorem Follows.below_of_mem (follows : forest.Follows children) {vertex : α}
    (member : vertex ∈ forest.order) :
    ∃ root ∈ forest.roots, ∃ steps, Below children steps root vertex := by
  induction forest with
  | nil => cases member
  | cons root below after belowInduction afterInduction =>
      rcases List.mem_cons.mp member with rfl | deeper
      · exact ⟨vertex, List.mem_cons_self, 0, rfl⟩
      · rcases List.mem_append.mp deeper with inBelow | inAfter
        · rcases belowInduction follows.2.1 inBelow with ⟨child, listed, steps, beneath⟩
          rw [← follows.1] at listed
          exact ⟨root, List.mem_cons_self, steps + 1, below_of_child listed beneath⟩
        · rcases afterInduction follows.2.2 inAfter with ⟨other, listed, found⟩
          exact ⟨other, List.mem_cons_of_mem _ listed, found⟩

theorem Follows.mem_of_child (follows : forest.Follows children) {vertex child : α}
    (member : vertex ∈ forest.order) (listed : child ∈ children vertex) :
    child ∈ forest.order := by
  induction forest with
  | nil => cases member
  | cons root below after belowInduction afterInduction =>
      rcases List.mem_cons.mp member with rfl | deeper
      · rw [follows.1] at listed
        exact List.mem_cons_of_mem _ (List.mem_append_left _ (mem_order_of_mem_roots listed))
      · apply List.mem_cons_of_mem
        rcases List.mem_append.mp deeper with inBelow | inAfter
        · exact List.mem_append_left _ (belowInduction follows.2.1 inBelow)
        · exact List.mem_append_right _ (afterInduction follows.2.2 inAfter)

theorem Follows.mem_of_below (follows : forest.Follows children) {steps : Nat} {vertex lower : α}
    (member : vertex ∈ forest.order) (below : Below children steps vertex lower) :
    lower ∈ forest.order := by
  induction steps generalizing lower with
  | zero =>
      cases below
      exact member
  | succ steps induction =>
      rcases below with ⟨parent, above, child⟩
      exact follows.mem_of_child (induction above) child

/-- Two vertices lie in the trees below two siblings, in the order of the siblings. -/
def Beside (children : α → List α) (siblings : List α) (first second : α) : Prop :=
  ∃ left right, [left, right].Sublist siblings ∧
    (∃ steps, Below children steps left first) ∧ ∃ steps, Below children steps right second

def Siblings (children : α → List α) (forest : Forest α) (siblings : List α) : Prop :=
  siblings = forest.roots ∨ ∃ parent ∈ forest.order, siblings = children parent

theorem pair_sublist_append {left right : List α} {first second : α} :
    [first, second].Sublist (left ++ right) ↔ [first, second].Sublist left ∨
      (first ∈ left ∧ second ∈ right) ∨ [first, second].Sublist right := by
  rw [List.sublist_append_iff]
  constructor
  · rintro ⟨ahead, behind, whole, inLeft, inRight⟩
    cases ahead with
    | nil =>
        rw [List.nil_append] at whole
        exact .inr (.inr (whole ▸ inRight))
    | cons head rest =>
        cases rest with
        | nil =>
            cases whole
            exact .inr (.inl ⟨List.singleton_sublist.mp inLeft, List.singleton_sublist.mp inRight⟩)
        | cons next others =>
            have empty : others = [] ∧ behind = [] := by
              have tail := congrArg (List.drop 2) whole
              exact List.append_eq_nil_iff.mp tail.symm
            rcases empty with ⟨rfl, rfl⟩
            cases whole
            exact .inl inLeft
  · rintro (inLeft | ⟨inLeft, inRight⟩ | inRight)
    · exact ⟨_, [], (List.append_nil _).symm, inLeft, List.nil_sublist _⟩
    · exact ⟨[first], [second], rfl, List.singleton_sublist.mpr inLeft,
        List.singleton_sublist.mpr inRight⟩
    · exact ⟨[], _, rfl, List.nil_sublist _, inRight⟩

variable {items : List α} {first second : α}

theorem pair_sublist_cons {head : α} :
    [first, second].Sublist (head :: items) ↔
      (first = head ∧ second ∈ items) ∨ [first, second].Sublist items := by
  have split := @pair_sublist_append α [head] items first second
  rw [List.singleton_append, List.mem_singleton] at split
  rw [split]
  constructor
  · rintro (alone | other)
    · exact absurd alone.length_le (by simp)
    · exact other
  · exact .inr

theorem pair_sublist_total (firstMember : first ∈ items) (secondMember : second ∈ items)
    (different : first ≠ second) :
    [first, second].Sublist items ∨ [second, first].Sublist items := by
  induction items with
  | nil => cases firstMember
  | cons head rest induction =>
      rw [pair_sublist_cons, pair_sublist_cons]
      rcases List.mem_cons.mp firstMember with rfl | firstLater
      · exact .inl (.inl ⟨rfl, (List.mem_cons.mp secondMember).resolve_left different.symm⟩)
      · rcases List.mem_cons.mp secondMember with rfl | secondLater
        · exact .inr (.inl ⟨rfl, firstLater⟩)
        · exact (induction firstLater secondLater).imp .inr .inr

theorem pair_sublist_asymm (nodup : items.Nodup) (forward : [first, second].Sublist items)
    : ¬ [second, first].Sublist items := by
  induction items with
  | nil => cases forward
  | cons head rest induction =>
      rw [List.nodup_cons] at nodup
      rw [pair_sublist_cons] at forward ⊢
      rintro (⟨rfl, later⟩ | backward)
      · rcases forward with ⟨rfl, self⟩ | inside
        · exact nodup.1 self
        · exact nodup.1 (inside.subset (List.mem_cons_of_mem _ List.mem_cons_self))
      · rcases forward with ⟨rfl, _⟩ | inside
        · exact nodup.1 (backward.subset (List.mem_cons_of_mem _ List.mem_cons_self))
        · exact induction nodup.2 inside backward

theorem Follows.parent_first (follows : forest.Follows children) {parent child : α}
    (member : parent ∈ forest.order) (listed : child ∈ children parent) :
    [parent, child].Sublist forest.order := by
  induction forest with
  | nil => cases member
  | cons root below after belowInduction afterInduction =>
      rw [order, pair_sublist_cons, pair_sublist_append]
      rcases List.mem_cons.mp member with rfl | deeper
      · rw [follows.1] at listed
        exact .inl ⟨rfl, List.mem_append_left _ (mem_order_of_mem_roots listed)⟩
      · rcases List.mem_append.mp deeper with inBelow | inAfter
        · exact .inr (.inl (belowInduction follows.2.1 inBelow))
        · exact .inr (.inr (.inr (afterInduction follows.2.2 inAfter)))

theorem Follows.below_or_beside (follows : forest.Follows children)
    (ordered : [first, second].Sublist forest.order) :
    (∃ steps, Below children (steps + 1) first second) ∨
      ∃ siblings, Siblings children forest siblings ∧ Beside children siblings first second := by
  induction forest with
  | nil => cases ordered
  | cons root below after belowInduction afterInduction =>
      have inBelow : ∀ siblings, Siblings children below siblings →
          Siblings children (cons root below after) siblings := by
        rintro siblings (rfl | ⟨parent, member, rfl⟩)
        · exact .inr ⟨root, List.mem_cons_self, follows.1.symm⟩
        · exact .inr ⟨parent, List.mem_cons_of_mem _ (List.mem_append_left _ member), rfl⟩
      have split : [first, second].Sublist ([root] ++ (below.order ++ after.order)) := ordered
      rcases pair_sublist_append.mp split with alone | ⟨isRoot, later⟩ | deeper
      · exact absurd alone.length_le (by simp)
      · cases List.mem_singleton.mp isRoot
        rcases List.mem_append.mp later with member | member
        · rcases follows.2.1.below_of_mem member with ⟨child, listed, steps, beneath⟩
          rw [← follows.1] at listed
          exact .inl ⟨steps, below_of_child listed beneath⟩
        · rcases follows.2.2.below_of_mem member with ⟨other, listed, found⟩
          refine .inr ⟨_, .inl rfl, first, other, ?_, ⟨0, rfl⟩, found⟩
          exact List.Sublist.cons_cons _ (List.singleton_sublist.mpr listed)
      · rcases pair_sublist_append.mp deeper with inside | ⟨ahead, behind⟩ | outside
        · rcases belowInduction follows.2.1 inside with lower | ⟨siblings, listed, beside⟩
          · exact .inl lower
          · exact .inr ⟨siblings, inBelow siblings listed, beside⟩
        · rcases follows.2.1.below_of_mem ahead with ⟨child, listed, steps, beneath⟩
          rw [← follows.1] at listed
          rcases follows.2.2.below_of_mem behind with ⟨other, member, found⟩
          refine .inr ⟨_, .inl rfl, root, other, ?_, ⟨_, below_of_child listed beneath⟩, found⟩
          exact List.Sublist.cons_cons _ (List.singleton_sublist.mpr member)
        · rcases afterInduction follows.2.2 outside with lower | ⟨_, rfl | ⟨parent, member, rfl⟩, beside⟩
          · exact .inl lower
          · rcases beside with ⟨left, right, ordered, found⟩
            exact .inr ⟨_, .inl rfl, left, right, List.Sublist.cons _ ordered, found⟩
          · exact .inr ⟨_, .inr ⟨parent, List.mem_cons_of_mem _ (List.mem_append_right _ member),
              rfl⟩, beside⟩

theorem Follows.sublist_of_beside (follows : forest.Follows children) {siblings : List α}
    (listed : Siblings children forest siblings) (beside : Beside children siblings first second)
    : [first, second].Sublist forest.order := by
  induction forest generalizing siblings with
  | nil =>
      rcases listed with rfl | ⟨parent, member, _⟩
      · rcases beside with ⟨left, right, ordered, _⟩
        cases ordered
      · cases member
  | cons root below after belowInduction afterInduction =>
      have inBelow : [first, second].Sublist below.order →
          [first, second].Sublist (cons root below after).order := fun inside =>
        (inside.trans (List.sublist_append_left _ _)).trans (List.sublist_cons_self _ _)
      have inAfter : [first, second].Sublist after.order →
          [first, second].Sublist (cons root below after).order := fun outside =>
        (outside.trans (List.sublist_append_right _ _)).trans (List.sublist_cons_self _ _)
      rcases listed with rfl | ⟨parent, member, rfl⟩
      · rcases beside with ⟨left, right, ordered, ⟨leftSteps, leftBelow⟩, rightSteps, rightBelow⟩
        have split : [left, right].Sublist ([root] ++ after.roots) := ordered
        rcases pair_sublist_append.mp split with alone | ⟨isRoot, later⟩ | deeper
        · exact absurd alone.length_le (by simp)
        · cases List.mem_singleton.mp isRoot
          have alone : (cons root below nil).Follows children := ⟨follows.1, follows.2.1, trivial⟩
          have ahead := alone.mem_of_below List.mem_cons_self leftBelow
          have behind := follows.2.2.mem_of_below (mem_order_of_mem_roots later) rightBelow
          have whole : (cons root below after).order = (cons root below nil).order ++ after.order := by
            rw [order, order, order, List.append_nil, List.cons_append]
          rw [whole]
          exact pair_sublist_append.mpr (.inr (.inl ⟨ahead, behind⟩))
        · exact inAfter (afterInduction follows.2.2 (.inl rfl)
            ⟨left, right, deeper, ⟨leftSteps, leftBelow⟩, rightSteps, rightBelow⟩)
      · rcases List.mem_cons.mp member with rfl | deeper
        · rw [follows.1] at beside
          exact inBelow (belowInduction follows.2.1 (.inl rfl) beside)
        · rcases List.mem_append.mp deeper with inside | outside
          · exact inBelow (belowInduction follows.2.1 (.inr ⟨parent, inside, rfl⟩) beside)
          · exact inAfter (afterInduction follows.2.2 (.inr ⟨parent, outside, rfl⟩) beside)

end Order

end Forest

end Ebb
