import Mathlib.Data.List.Nodup

namespace Ebb

/-! Ordered forests, the tables of children they follow, and the walks over such a
table. -/

/-- A tree with the trees below it, and the trees after it. -/
inductive Forest (α : Type u) where
  | nil
  | cons (root : α) (below after : Forest α)

namespace Forest

variable {α : Type u}

def roots : Forest α → List α
  | nil => []
  | cons root _ after => root :: after.roots

def order : Forest α → List α
  | nil => []
  | cons root below after => root :: (below.order ++ after.order)

def height : Forest α → Nat
  | nil => 0
  | cons _ below after => max (below.height + 1) after.height

theorem height_le (forest : Forest α) : forest.height ≤ forest.order.length := by
  induction forest with
  | nil => exact Nat.le_refl 0
  | cons root below after belowInduction afterInduction =>
      rw [height, order, List.length_cons, List.length_append]
      omega

variable {forest : Forest α}

theorem mem_order_of_mem_roots {vertex : α} (member : vertex ∈ forest.roots) :
    vertex ∈ forest.order := by
  induction forest with
  | nil => cases member
  | cons root below after _ induction =>
      rcases List.mem_cons.mp member with rfl | later
      · exact List.mem_cons_self
      · exact List.mem_cons_of_mem _ (List.mem_append_right _ (induction later))

theorem nodup_cons {root : α} {below after : Forest α} :
    (cons root below after).order.Nodup ↔
      root ∉ below.order ∧ root ∉ after.order ∧ below.order.Nodup ∧ after.order.Nodup ∧
        ∀ vertex ∈ below.order, vertex ∉ after.order := by
  rw [order, List.nodup_cons, List.mem_append, not_or, List.nodup_append]
  constructor
  · rintro ⟨⟨outBelow, outAfter⟩, belowNodup, afterNodup, apart⟩
    exact ⟨outBelow, outAfter, belowNodup, afterNodup, fun vertex inBelow inAfter =>
      apart vertex inBelow vertex inAfter rfl⟩
  · rintro ⟨outBelow, outAfter, belowNodup, afterNodup, apart⟩
    refine ⟨⟨outBelow, outAfter⟩, belowNodup, afterNodup, ?_⟩
    rintro vertex inBelow other inAfter rfl
    exact apart vertex inBelow inAfter

/-! ## Tables of children -/

/-- The children of every vertex are the roots of the trees below it. -/
def Follows (children : α → List α) : Forest α → Prop
  | nil => True
  | cons root below after =>
      children root = below.roots ∧ below.Follows children ∧ after.Follows children

theorem Follows.congr {children others : α → List α} (follows : forest.Follows children)
    (same : ∀ vertex ∈ forest.order, others vertex = children vertex) : forest.Follows others := by
  induction forest with
  | nil => trivial
  | cons root below after belowInduction afterInduction =>
      refine ⟨?_, ?_, ?_⟩
      · rw [same root List.mem_cons_self, follows.1]
      · exact belowInduction follows.2.1 fun vertex member =>
          same vertex (List.mem_cons_of_mem _ (List.mem_append_left _ member))
      · exact afterInduction follows.2.2 fun vertex member =>
          same vertex (List.mem_cons_of_mem _ (List.mem_append_right _ member))

theorem Follows.unique {children others : α → List α} {first second : Forest α}
    (follows : first.Follows children) (again : second.Follows others)
    (roots : second.roots = first.roots)
    (same : ∀ vertex ∈ first.order, others vertex = children vertex) : second = first := by
  induction first generalizing second with
  | nil =>
      cases second with
      | nil => rfl
      | cons root below after => cases roots
  | cons root below after belowInduction afterInduction =>
      cases second with
      | nil => cases roots
      | cons other lower later =>
          simp only [Forest.roots, List.cons.injEq] at roots
          obtain ⟨rfl, laterRoots⟩ := roots
          have lowerRoots : lower.roots = below.roots := by
            rw [← again.1, ← follows.1, same other List.mem_cons_self]
          rw [belowInduction follows.2.1 again.2.1 lowerRoots fun vertex member =>
              same vertex (List.mem_cons_of_mem _ (List.mem_append_left _ member)),
            afterInduction follows.2.2 again.2.2 laterRoots fun vertex member =>
              same vertex (List.mem_cons_of_mem _ (List.mem_append_right _ member))]

/-! ## Walks -/

section Walks

variable {β : Type v} (visit : α → Option β) (children : α → List α)

/-- A depth-first traversal that skips the vertices without a value. -/
def traverse : Nat → α → List β
  | 0, _ => []
  | fuel + 1, vertex =>
      match visit vertex with
      | none => []
      | some value => value :: (children vertex).flatMap (traverse fuel)

def collect : Nat → List α → List α
  | 0, _ => []
  | _ + 1, [] => []
  | fuel + 1, vertex :: rest => vertex :: collect fuel (children vertex ++ rest)

variable {visit children}

theorem flatMap_traverse {forest : Forest α} (follows : forest.Follows children)
    (visited : ∀ vertex ∈ forest.order, (visit vertex).isSome) {fuel : Nat}
    (enough : forest.height ≤ fuel) :
    forest.roots.flatMap (traverse visit children fuel) = forest.order.filterMap visit := by
  induction forest generalizing fuel with
  | nil => rfl
  | cons root below after belowInduction afterInduction =>
      rw [height] at enough
      cases fuel with
      | zero => omega
      | succ fuel =>
          have rest := afterInduction follows.2.2
            (fun vertex member =>
              visited vertex (List.mem_cons_of_mem _ (List.mem_append_right _ member)))
            (show after.height ≤ fuel + 1 by omega)
          have inner := belowInduction follows.2.1
            (fun vertex member =>
              visited vertex (List.mem_cons_of_mem _ (List.mem_append_left _ member)))
            (show below.height ≤ fuel by omega)
          rcases Option.isSome_iff_exists.mp (visited root List.mem_cons_self) with ⟨value, here⟩
          rw [roots, List.flatMap_cons, rest, traverse, here]
          dsimp only
          rw [follows.1, inner, order, List.filterMap_cons, here, List.filterMap_append]
          rfl

theorem collect_append {forest : Forest α} (follows : forest.Follows children) (fuel : Nat)
    (stack : List α) :
    collect children (forest.order.length + fuel) (forest.roots ++ stack) =
      forest.order ++ collect children fuel stack := by
  induction forest generalizing fuel stack with
  | nil =>
      rw [order, roots, List.length_nil, Nat.zero_add]
      rfl
  | cons root below after belowInduction afterInduction =>
      have size : (cons root below after).order.length + fuel =
          below.order.length + (after.order.length + fuel) + 1 := by
        rw [order, List.length_cons, List.length_append]
        omega
      rw [size, roots, List.cons_append, collect, follows.1, belowInduction follows.2.1,
        afterInduction follows.2.2, order, List.cons_append, List.append_assoc]

theorem collect_roots {forest : Forest α} (follows : forest.Follows children) {fuel : Nat}
    (enough : forest.order.length ≤ fuel) : collect children fuel forest.roots = forest.order := by
  have whole := collect_append follows (fuel - forest.order.length) []
  rw [Nat.add_sub_cancel' enough, List.append_nil] at whole
  rw [whole]
  cases fuel - forest.order.length with
  | zero => exact List.append_nil _
  | succ _ => exact List.append_nil _

end Walks

/-! ## Inserting a leaf -/

def orderTake : Nat → Forest α → List α
  | 0, _ => []
  | _ + 1, nil => []
  | count + 1, cons root below after => root :: (below.order ++ orderTake count after)

def orderDrop : Nat → Forest α → List α
  | 0, forest => forest.order
  | _ + 1, nil => []
  | count + 1, cons _ _ after => orderDrop count after

theorem orderTake_append_orderDrop (count : Nat) (forest : Forest α) :
    orderTake count forest ++ orderDrop count forest = forest.order := by
  induction count generalizing forest with
  | zero => rfl
  | succ count induction =>
      cases forest with
      | nil => rfl
      | cons root below after =>
          rw [orderTake, orderDrop, List.cons_append, List.append_assoc, induction, order]

section

variable {children : α → List α} (follows : forest.Follows children)
include follows

theorem flatMap_traverse_take {β : Type v} {visit : α → Option β}
    (visited : ∀ vertex ∈ forest.order, (visit vertex).isSome) {fuel : Nat}
    (enough : forest.height ≤ fuel) (count : Nat) :
    (forest.roots.take count).flatMap (traverse visit children fuel) =
      (orderTake count forest).filterMap visit := by
  induction forest generalizing count with
  | nil =>
      cases count with
      | zero => rfl
      | succ count => rfl
  | cons root below after _ induction =>
      cases count with
      | zero => rfl
      | succ count =>
          rw [height] at enough
          have first := @flatMap_traverse α β visit children (cons root below nil)
            ⟨follows.1, follows.2.1, trivial⟩
            (fun vertex member => visited vertex (by
              rw [order, order, List.append_nil] at member
              rw [order, ← List.cons_append]
              exact List.mem_append_left _ member))
            fuel (by rw [height, height]; omega)
          have rest := induction follows.2.2
            (fun vertex member => visited vertex
              (List.mem_cons_of_mem _ (List.mem_append_right _ member)))
            (by omega) count
          rw [roots, roots, List.flatMap_singleton] at first
          rw [roots, List.take_succ_cons, List.flatMap_cons, first, rest, orderTake,
            ← List.cons_append, List.filterMap_append, order, order, List.append_nil]

theorem flatMap_collect_take {fuel : Nat} (enough : forest.order.length ≤ fuel) (count : Nat) :
    (forest.roots.take count).flatMap (fun root => collect children fuel [root]) =
      orderTake count forest := by
  induction forest generalizing count with
  | nil =>
      cases count with
      | zero => rfl
      | succ count => rfl
  | cons root below after _ induction =>
      cases count with
      | zero => rfl
      | succ count =>
          rw [order, List.length_cons, List.length_append] at enough
          have first := @collect_roots α children (cons root below nil)
            ⟨follows.1, follows.2.1, trivial⟩ fuel (by
              simp only [order, List.length_cons, List.length_append, List.length_nil]
              omega)
          have rest := induction follows.2.2 (by omega) count
          rw [roots, roots, order, order, List.append_nil] at first
          rw [roots, List.take_succ_cons, List.flatMap_cons, first, rest, orderTake,
            List.cons_append]

theorem order_of_roots_take {others : α → List α} {grown : Forest α} {leaf : α} {rest : List α}
    (again : grown.Follows others) (same : ∀ vertex ∈ forest.order, others vertex = children vertex)
    {count : Nat} (within : count ≤ forest.roots.length)
    (roots : grown.roots = forest.roots.take count ++ leaf :: rest) :
    ∃ later, grown.order = orderTake count forest ++ leaf :: later := by
  induction forest generalizing grown count with
  | nil =>
      cases count with
      | succ count => cases within
      | zero =>
          cases grown with
          | nil => cases roots
          | cons root below after =>
              cases roots
              exact ⟨below.order ++ after.order, rfl⟩
  | cons root below after _ induction =>
      cases grown with
      | nil =>
          cases count with
          | zero => cases roots
          | succ count => cases roots
      | cons other lower later =>
          cases count with
          | zero =>
              cases roots
              exact ⟨lower.order ++ later.order, rfl⟩
          | succ count =>
              simp only [Forest.roots, List.take_succ_cons, List.cons_append, List.cons.injEq]
                at roots
              obtain ⟨rfl, laterRoots⟩ := roots
              have first : lower = below := follows.2.1.unique again.2.1
                (by rw [← again.1, ← follows.1, same other List.mem_cons_self])
                fun vertex member =>
                  same vertex (List.mem_cons_of_mem _ (List.mem_append_left _ member))
              obtain ⟨tail, order⟩ := induction follows.2.2 again.2.2
                (fun vertex member =>
                  same vertex (List.mem_cons_of_mem _ (List.mem_append_right _ member)))
                (Nat.le_of_succ_le_succ within) laterRoots
              refine ⟨tail, ?_⟩
              rw [Forest.order, first, order, orderTake, List.cons_append, List.append_assoc]

end

def insertAt (leaf : α) : Nat → Forest α → Forest α
  | 0, forest => cons leaf nil forest
  | _ + 1, nil => cons leaf nil nil
  | index + 1, cons root below after => cons root below (insertAt leaf index after)

theorem roots_insertAt (leaf : α) (index : Nat) (forest : Forest α) :
    (insertAt leaf index forest).roots =
      forest.roots.take index ++ leaf :: forest.roots.drop index := by
  induction index generalizing forest with
  | zero => rfl
  | succ index induction =>
      cases forest with
      | nil => rfl
      | cons root below after =>
          rw [insertAt, roots, induction, roots, List.take_succ_cons, List.drop_succ_cons]
          rfl

theorem order_insertAt (leaf : α) (index : Nat) (forest : Forest α) :
    (insertAt leaf index forest).order =
      orderTake index forest ++ leaf :: orderDrop index forest := by
  induction index generalizing forest with
  | zero => rfl
  | succ index induction =>
      cases forest with
      | nil => rfl
      | cons root below after =>
          rw [insertAt, order, induction, orderTake, orderDrop, List.cons_append,
            List.append_assoc]

theorem Follows.insertAt {children : α → List α} {leaf : α} (bare : children leaf = [])
    (index : Nat) (follows : forest.Follows children) :
    (Forest.insertAt leaf index forest).Follows children := by
  induction index generalizing forest with
  | zero => exact ⟨bare, trivial, follows⟩
  | succ index induction =>
      cases forest with
      | nil => exact ⟨bare, trivial, trivial⟩
      | cons root below after => exact ⟨follows.1, follows.2.1, induction follows.2.2⟩

theorem order_around {children others : α → List α} {vertex : α} {first second : Forest α}
    (follows : first.Follows children) (again : second.Follows others)
    (nodup : first.order.Nodup) (roots : second.roots = first.roots)
    (same : ∀ other ∈ first.order, other ≠ vertex → others other = children other)
    (member : vertex ∈ first.order) :
    ∃ (before : List α) (below lower : Forest α) (after : List α),
      first.order = before ++ vertex :: (below.order ++ after) ∧
      second.order = before ++ vertex :: (lower.order ++ after) ∧
      children vertex = below.roots ∧ others vertex = lower.roots ∧
      below.Follows children ∧ lower.Follows others := by
  induction first generalizing second with
  | nil => cases member
  | cons root below after belowInduction afterInduction =>
      cases second with
      | nil => cases roots
      | cons other lower later =>
          simp only [Forest.roots, List.cons.injEq] at roots
          obtain ⟨rfl, laterRoots⟩ := roots
          rcases nodup_cons.mp nodup with ⟨outBelow, outAfter, belowNodup, afterNodup, apart⟩
          have sameBelow : ∀ other ∈ below.order, other ≠ vertex → others other = children other :=
            fun other inside => same other (List.mem_cons_of_mem _ (List.mem_append_left _ inside))
          have sameAfter : ∀ other ∈ after.order, other ≠ vertex → others other = children other :=
            fun other inside => same other (List.mem_cons_of_mem _ (List.mem_append_right _ inside))
          have afterSame : vertex ∉ after.order → later = after := fun outside =>
            follows.2.2.unique again.2.2 laterRoots fun other inside =>
              sameAfter other inside fun equal => outside (equal ▸ inside)
          by_cases here : other = vertex
          · subst here
            refine ⟨[], below, lower, after.order, rfl, ?_, follows.1, again.1, follows.2.1,
              again.2.1⟩
            rw [Forest.order, afterSame outAfter]
            rfl
          · have lowerRoots : lower.roots = below.roots := by
              rw [← again.1, ← follows.1, same other List.mem_cons_self here]
            rcases List.mem_cons.mp member with equal | deeper
            · exact absurd equal.symm here
            · rcases List.mem_append.mp deeper with inBelow | inAfter
              · obtain ⟨before, inner, deeper, rest, whole, grown, facts⟩ :=
                  belowInduction follows.2.1 again.2.1 belowNodup lowerRoots sameBelow inBelow
                refine ⟨other :: before, inner, deeper, rest ++ after.order, ?_, ?_, facts⟩
                · rw [Forest.order, whole]
                  simp only [List.append_assoc, List.cons_append]
                · rw [Forest.order, grown, afterSame (apart vertex inBelow)]
                  simp only [List.append_assoc, List.cons_append]
              · have belowSame : lower = below := follows.2.1.unique again.2.1 lowerRoots
                  fun other inside => sameBelow other inside fun equal =>
                    apart vertex (equal ▸ inside) inAfter
                obtain ⟨before, inner, deeper, rest, whole, grown, facts⟩ :=
                  afterInduction follows.2.2 again.2.2 afterNodup laterRoots sameAfter inAfter
                refine ⟨other :: (below.order ++ before), inner, deeper, rest, ?_, ?_, facts⟩
                · rw [Forest.order, whole]
                  simp only [List.append_assoc, List.cons_append]
                · rw [Forest.order, belowSame, grown]
                  simp only [List.append_assoc, List.cons_append]

/-! ## Growing below a vertex -/

section Growing

variable [DecidableEq α]

/-- A leaf below a vertex, as the tree at an index. -/
def insertUnder (parent leaf : α) (index : Nat) : Forest α → Forest α
  | nil => nil
  | cons root below after =>
      if root = parent then cons root (insertAt leaf index below) after
      else cons root (insertUnder parent leaf index below) (insertUnder parent leaf index after)

/-- A vertex between another and the trees below it. -/
def interpose (upper lower : α) : Forest α → Forest α
  | nil => nil
  | cons root below after =>
      if root = upper then cons root (cons lower below nil) after
      else cons root (interpose upper lower below) (interpose upper lower after)

theorem roots_insertUnder (parent leaf : α) (index : Nat) (forest : Forest α) :
    (insertUnder parent leaf index forest).roots = forest.roots := by
  induction forest with
  | nil => rfl
  | cons root below after _ induction =>
      rw [insertUnder]
      split
      · rfl
      · rw [roots, roots, induction]

theorem roots_interpose (upper lower : α) (forest : Forest α) :
    (interpose upper lower forest).roots = forest.roots := by
  induction forest with
  | nil => rfl
  | cons root below after _ induction =>
      rw [interpose]
      split
      · rfl
      · rw [roots, roots, induction]

variable {forest : Forest α} {parent : α}

theorem insertUnder_of_notMem (leaf : α) (index : Nat) (absent : parent ∉ forest.order)
    : insertUnder parent leaf index forest = forest := by
  induction forest with
  | nil => rfl
  | cons root below after belowInduction afterInduction =>
      rw [order, List.mem_cons, List.mem_append, not_or, not_or] at absent
      rw [insertUnder, if_neg fun same => absent.1 same.symm, belowInduction absent.2.1,
        afterInduction absent.2.2]

theorem interpose_of_notMem {upper : α} (lower : α) (absent : upper ∉ forest.order)
    : interpose upper lower forest = forest := by
  induction forest with
  | nil => rfl
  | cons root below after belowInduction afterInduction =>
      rw [order, List.mem_cons, List.mem_append, not_or, not_or] at absent
      rw [interpose, if_neg fun same => absent.1 same.symm, belowInduction absent.2.1,
        afterInduction absent.2.2]

variable {children others : α → List α}

theorem Follows.insertUnder {leaf : α} {index : Nat} (follows : forest.Follows children)
    (nodup : forest.order.Nodup) (fresh : leaf ∉ forest.order) (bare : others leaf = [])
    (grown : others parent = (children parent).take index ++ leaf :: (children parent).drop index)
    (same : ∀ vertex ∈ forest.order, vertex ≠ parent → others vertex = children vertex) :
    (Forest.insertUnder parent leaf index forest).Follows others := by
  induction forest with
  | nil => trivial
  | cons root below after belowInduction afterInduction =>
      rcases nodup_cons.mp nodup with ⟨outBelow, outAfter, belowNodup, afterNodup, _⟩
      rw [order, List.mem_cons, List.mem_append, not_or, not_or] at fresh
      have sameBelow : ∀ vertex ∈ below.order, vertex ≠ parent → others vertex = children vertex :=
        fun vertex member => same vertex (List.mem_cons_of_mem _ (List.mem_append_left _ member))
      have sameAfter : ∀ vertex ∈ after.order, vertex ≠ parent → others vertex = children vertex :=
        fun vertex member => same vertex (List.mem_cons_of_mem _ (List.mem_append_right _ member))
      rw [Forest.insertUnder]
      split
      · next here =>
          subst here
          have kept : below.Follows others := follows.2.1.congr fun vertex member =>
            sameBelow vertex member fun equal => outBelow (equal ▸ member)
          refine ⟨?_, kept.insertAt bare index, follows.2.2.congr fun vertex member =>
            sameAfter vertex member fun equal => outAfter (equal ▸ member)⟩
          rw [grown, roots_insertAt, follows.1]
      · next elsewhere =>
          refine ⟨?_, belowInduction follows.2.1 belowNodup fresh.2.1 sameBelow,
            afterInduction follows.2.2 afterNodup fresh.2.2 sameAfter⟩
          rw [same root List.mem_cons_self elsewhere, roots_insertUnder, follows.1]

theorem order_insertUnder (leaf : α) (index : Nat) (follows : forest.Follows children)
    (nodup : forest.order.Nodup) (member : parent ∈ forest.order) :
    ∃ (before : List α) (below : Forest α) (after : List α),
      forest.order = before ++ parent :: (below.order ++ after) ∧
      (insertUnder parent leaf index forest).order = before ++ parent ::
        (orderTake index below ++ leaf :: (orderDrop index below ++ after)) ∧
      children parent = below.roots ∧ below.Follows children := by
  induction forest with
  | nil => cases member
  | cons root below after belowInduction afterInduction =>
      rcases nodup_cons.mp nodup with ⟨_, _, belowNodup, afterNodup, apart⟩
      rw [insertUnder]
      split
      · next here =>
          subst here
          refine ⟨[], below, after.order, rfl, ?_, follows.1, follows.2.1⟩
          rw [order, order_insertAt, List.append_assoc]
          rfl
      · next elsewhere =>
          rcases List.mem_cons.mp member with same | deeper
          · exact absurd same.symm elsewhere
          · rcases List.mem_append.mp deeper with inBelow | inAfter
            · rcases belowInduction follows.2.1 belowNodup inBelow with
                ⟨before, inner, rest, whole, grown, table, inside⟩
              refine ⟨root :: before, inner, rest ++ after.order, ?_, ?_, table, inside⟩
              · rw [order, whole]
                simp only [List.append_assoc, List.cons_append]
              · rw [order, grown, insertUnder_of_notMem leaf index (apart parent inBelow)]
                simp only [List.append_assoc, List.cons_append]
            · have outside : parent ∉ below.order := fun inBelow => apart parent inBelow inAfter
              rcases afterInduction follows.2.2 afterNodup inAfter with
                ⟨before, inner, rest, whole, grown, table, inside⟩
              refine ⟨root :: (below.order ++ before), inner, rest, ?_, ?_, table, inside⟩
              · rw [order, whole]
                simp only [List.append_assoc, List.cons_append]
              · rw [order, grown, insertUnder_of_notMem leaf index outside]
                simp only [List.append_assoc, List.cons_append]

theorem order_insertUnder_middle (leaf : α) (index : Nat) (follows : forest.Follows children)
    (nodup : forest.order.Nodup) (member : parent ∈ forest.order) :
    ∃ before after, forest.order = before ++ after ∧
      (insertUnder parent leaf index forest).order = before ++ leaf :: after := by
  rcases order_insertUnder leaf index follows nodup member with
    ⟨before, below, after, whole, grown, _, _⟩
  refine ⟨before ++ parent :: orderTake index below, orderDrop index below ++ after, ?_, ?_⟩
  · rw [whole, ← orderTake_append_orderDrop index below]
    simp only [List.append_assoc, List.cons_append]
  · rw [grown]
    simp only [List.append_assoc, List.cons_append]

theorem Follows.interpose {upper lower : α} (follows : forest.Follows children)
    (nodup : forest.order.Nodup) (fresh : lower ∉ forest.order) (single : others upper = [lower])
    (moved : others lower = children upper)
    (same : ∀ vertex ∈ forest.order, vertex ≠ upper → others vertex = children vertex) :
    (Forest.interpose upper lower forest).Follows others := by
  induction forest with
  | nil => trivial
  | cons root below after belowInduction afterInduction =>
      rcases nodup_cons.mp nodup with ⟨outBelow, outAfter, belowNodup, afterNodup, _⟩
      rw [order, List.mem_cons, List.mem_append, not_or, not_or] at fresh
      have sameBelow : ∀ vertex ∈ below.order, vertex ≠ upper → others vertex = children vertex :=
        fun vertex member => same vertex (List.mem_cons_of_mem _ (List.mem_append_left _ member))
      have sameAfter : ∀ vertex ∈ after.order, vertex ≠ upper → others vertex = children vertex :=
        fun vertex member => same vertex (List.mem_cons_of_mem _ (List.mem_append_right _ member))
      rw [Forest.interpose]
      split
      · next here =>
          subst here
          have kept : below.Follows others := follows.2.1.congr fun vertex member =>
            sameBelow vertex member fun equal => outBelow (equal ▸ member)
          refine ⟨single, ⟨moved.trans follows.1, kept, trivial⟩,
            follows.2.2.congr fun vertex member =>
              sameAfter vertex member fun equal => outAfter (equal ▸ member)⟩
      · next elsewhere =>
          refine ⟨?_, belowInduction follows.2.1 belowNodup fresh.2.1 sameBelow,
            afterInduction follows.2.2 afterNodup fresh.2.2 sameAfter⟩
          rw [same root List.mem_cons_self elsewhere, roots_interpose, follows.1]

theorem order_interpose {upper : α} (lower : α) (nodup : forest.order.Nodup)
    (member : upper ∈ forest.order) :
    ∃ before after, forest.order = before ++ upper :: after ∧
      (interpose upper lower forest).order = before ++ upper :: lower :: after := by
  induction forest with
  | nil => cases member
  | cons root below after belowInduction afterInduction =>
      rcases nodup_cons.mp nodup with ⟨_, _, belowNodup, afterNodup, apart⟩
      rw [interpose]
      split
      · next here =>
          subst here
          refine ⟨[], below.order ++ after.order, rfl, ?_⟩
          rw [order, order, order, List.append_nil]
          rfl
      · next elsewhere =>
          rcases List.mem_cons.mp member with same | deeper
          · exact absurd same.symm elsewhere
          · rcases List.mem_append.mp deeper with inBelow | inAfter
            · rcases belowInduction belowNodup inBelow with ⟨before, rest, whole, grown⟩
              refine ⟨root :: before, rest ++ after.order, ?_, ?_⟩
              · rw [order, whole, List.append_assoc]
                rfl
              · rw [order, grown, interpose_of_notMem lower (apart upper inBelow),
                  List.append_assoc]
                rfl
            · have outside : upper ∉ below.order := fun inBelow => apart upper inBelow inAfter
              rcases afterInduction afterNodup inAfter with ⟨before, rest, whole, grown⟩
              refine ⟨root :: (below.order ++ before), rest, ?_, ?_⟩
              · rw [order, whole, List.cons_append, List.append_assoc]
              · rw [order, grown, interpose_of_notMem lower outside, List.cons_append,
                  List.append_assoc]

end Growing

end Forest

end Ebb
